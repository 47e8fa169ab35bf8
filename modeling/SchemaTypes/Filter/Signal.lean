import SchemaTypes.Program

/-! Signals, and what the shell's `kill` is asked for. -/
namespace SchemaTypes.Filter

/-- Signals have numbers below this one. -/
def signalCount : Nat := 65

/-- The name by which the shell knows a signal. Three have only their number. -/
def signalName (n : Nat) : String :=
  if n = 0 ∨ n = 16 ∨ n = 32 ∨ n = 33 then toString n
  else if n = 34 then "RTMIN"
  else if n = 64 then "RTMAX"
  else if 34 < n ∧ n < 50 then "RTMIN+" ++ toString (n - 34)
  else if 50 ≤ n ∧ n < 64 then "RTMAX-" ++ toString (64 - n)
  else (ExitStatus.signalName? n).getD ""

/-- The signal with this number or name, in either case. -/
def signal? (text : String) : Option Nat :=
  if !text.isEmpty && text.all Char.isDigit then text.toNat?.filter (· < signalCount)
  else (List.range signalCount).find? fun n => n != 0 && signalName n == text.toUpper

/-- Signals that do not end a program. Those that stop one are taken for passed over. -/
def isHarmless (n : Nat) : Bool := [0, 17, 18, 19, 20, 21, 22, 23, 28].contains n

/-- What the end of a program by a signal is called. -/
def signalText (n : Nat) : String :=
  let known := ["Hangup", "Interrupt", "Quit", "Illegal instruction", "Trace/breakpoint trap",
    "Aborted", "Bus error", "Floating point exception", "Killed", "User defined signal 1",
    "Segmentation fault", "User defined signal 2", "Broken pipe", "Alarm clock", "Terminated",
    "Stack fault", "Child exited", "Continued", "Stopped (signal)", "Stopped",
    "Stopped (tty input)", "Stopped (tty output)", "Urgent I/O condition",
    "CPU time limit exceeded", "File size limit exceeded", "Virtual timer expired",
    "Profiling timer expired", "Window changed", "I/O possible", "Power failure",
    "Bad system call"]
  match if n = 0 then none else known[n - 1]? with
  | some text => text
  | none => if n < 34 then "Unknown signal " ++ toString n else s!"Real-time signal {n - 34}"

/-- What a shell says when a signal has ended a program that it waited for; of two signals it says
nothing. -/
def signalNotice (n : Nat) : String := if n = 2 ∨ n = 13 then "" else signalText n ++ "\n"

/-- What `kill` is asked for. -/
inductive KillRequest where
  /-- The names of all signals. -/
  | names
  /-- The name of one signal, given by its number or by the status of a program that it ended. -/
  | nameOf (text : String)
  | send (signal : Nat) (targets : List String)
deriving DecidableEq, Repr

namespace KillRequest

/-- What the arguments have said so far. -/
structure Reading where
  signal : Option Nat := none
  list : Bool := false
  operands : List String := []

def Reading.setSignal (r : Reading) (text : String) : Except String Reading :=
  match signal? text with
  | some n => .ok { r with signal := some n }
  | none => .error ("invalid signal number or name: " ++ text)

/-- Reads the letters in front of the operands. -/
def Reading.letters (r : Reading) : List String → Except String Reading
  | [] => .ok r
  | arg :: rest =>
    match arg.toList with
    | ['-', '-'] => .ok { r with operands := rest }
    | '-' :: c :: cs =>
      let lists := (c :: cs).takeWhile (· == 'l')
      let r := { r with list := r.list || !lists.isEmpty }
      match (c :: cs).drop lists.length, rest with
      | [], rest => letters r rest
      | ['s'], [] => .error "No arg for -s option"
      | ['s'], name :: rest => do letters (← r.setSignal name) rest
      | 's' :: name, rest => do letters (← r.setSignal (String.ofList name)) rest
      | letter :: _, _ => .error ("Illegal option -" ++ letter.toString)
    | _ => .ok { r with operands := arg :: rest }

def usage : String :=
  "Usage: kill [-s sigspec | -signum | -sigspec] [pid | job]... or\nkill -l [exitstatus]"

def ofReading (r : Reading) : Except String KillRequest :=
  match r.list, r.signal, r.operands with
  | true, none, [] | true, some _, [] => .ok .names
  | true, none, text :: _ => .ok (.nameOf text)
  | true, some _, _ :: _ | false, _, [] => .error usage
  | false, signal, targets => .ok (.send (signal.getD 15) targets)

/-- A signal may stand right behind the first dash. -/
def ofArguments (args : List String) : Except String KillRequest :=
  match args with
  | [] => .error usage
  | arg :: rest =>
    match arg.toList with
    | '-' :: name =>
      match signal? (String.ofList name) with
      | some n => ofReading { signal := some n, operands := rest }
      | none => do ofReading (← Reading.letters {} args)
    | _ => ofReading { operands := args }

end KillRequest
end SchemaTypes.Filter
