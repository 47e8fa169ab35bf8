import SchemaTypes.Text.Utf8

/-! What the operating system answers: errors, exit statuses, programs, the stream for output. -/
namespace SchemaTypes

/-- Why the operating system refused. -/
inductive SystemError where
  | notFound
  | permissionDenied
  | argumentTooLong
  | exists
  | notDirectory
  | isDirectory
  | nameTooLong
  | invalidText
  | nulInArgument
  | nulInPath
  /-- Any other cause, in the words of the operating system. -/
  | other (text : String)
deriving DecidableEq, Repr

def SystemError.message : SystemError → String
  | .notFound => "No such file or directory (os error 2)"
  | .argumentTooLong => "Argument list too long (os error 7)"
  | .permissionDenied => "Permission denied (os error 13)"
  | .exists => "File exists (os error 17)"
  | .notDirectory => "Not a directory (os error 20)"
  | .isDirectory => "Is a directory (os error 21)"
  | .nameTooLong => "File name too long (os error 36)"
  | .invalidText => "stream did not contain valid UTF-8"
  | .nulInArgument => "nul byte found in provided data"
  | .nulInPath => "file name contained an unexpected NUL byte"
  | .other text => text

/-- How a program ended. -/
inductive ExitStatus where
  | code (n : Nat)
  | signal (n : Nat)
deriving DecidableEq, Repr

namespace ExitStatus

def isSuccess : ExitStatus → Bool
  | .code 0 => true
  | _ => false

/-- The names of the signals from 1 on. -/
def signalNames : List String :=
  ["HUP", "INT", "QUIT", "ILL", "TRAP", "ABRT", "BUS", "FPE", "KILL", "USR1", "SEGV", "USR2",
    "PIPE", "ALRM", "TERM", "STKFLT", "CHLD", "CONT", "STOP", "TSTP", "TTIN", "TTOU", "URG",
    "XCPU", "XFSZ", "VTALRM", "PROF", "WINCH", "IO", "PWR", "SYS"]

def signalName? (n : Nat) : Option String := if n = 0 then none else signalNames[n - 1]?

def text : ExitStatus → String
  | .code n => s!"exit status: {n}"
  | .signal n =>
    match signalName? n with
    | some name => s!"signal: {n} (SIG{name})"
    | none => s!"signal: {n}"

end ExitStatus

/-- Why a program did not get its whole input, if not because it stopped reading. -/
inductive InputFault where
  | unwritten (cause : SystemError)
  /-- The writer of the input broke off. -/
  | panicked
deriving DecidableEq, Repr

/-- What a program left when it ended. -/
structure ProgramResult where
  status : ExitStatus
  output : ByteArray
  errors : ByteArray
  inputFault : Option InputFault := none

/-- Why a program left nothing. -/
inductive LaunchError where
  | notStarted (cause : SystemError)
  /-- It was started, but its output and its end could not be waited for. -/
  | notAwaited (cause : SystemError)
deriving DecidableEq, Repr

/-- Starts a program with arguments and an input, and waits for its end. The program may change a
state of type `σ`. -/
abbrev Launcher (σ : Type) := (program : String) → (args : List String) → (input : ByteArray) →
  StateM σ (Except LaunchError ProgramResult)

/-- The stream that is printed to. -/
inductive Console where
  | unlimited
  /-- It takes `room` bytes, and fails where more are printed. -/
  | limited (room : Nat) (cause : SystemError)
deriving DecidableEq, Repr

/-- Prints bytes, or as many of them as are taken. -/
def Console.print (console : Console) (bytes : ByteArray) : Except SystemError Unit × ByteArray :=
  match console with
  | .unlimited => (.ok (), bytes)
  | .limited room cause =>
    if bytes.size ≤ room then (.ok (), bytes) else (.error cause, bytes.extract 0 room)

end SchemaTypes
