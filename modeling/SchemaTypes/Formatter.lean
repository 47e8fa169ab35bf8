import SchemaTypes.Program
import SchemaTypes.Text

/-! Styling generated source with an outside formatter. -/
namespace SchemaTypes

/-- How the source is to be styled. It is always read as TypeScript. -/
structure FormatOptions where
  singleQuote : Bool
deriving DecidableEq, Repr

namespace FormatOptions

/-- The options of every run. -/
def standard : FormatOptions := ⟨true⟩

/-- The options as command-line flags. -/
def flags (options : FormatOptions) : List String :=
  ["--parser", "typescript"] ++ if options.singleQuote then ["--single-quote"] else []

end FormatOptions

inductive FormatError where
  | notStarted (program : String) (cause : SystemError)
  /-- The source could not be sent, or the result not be waited for. -/
  | notExchanged (cause : SystemError)
  | failed (status : ExitStatus) (errors : String)
  | notText (fault : Text.Utf8Fault)
  | other (text : String)
deriving DecidableEq, Repr

def FormatError.message : FormatError → String
  | .notStarted program cause =>
    "failed to start formatter \x60" ++ program ++ "\x60: " ++ cause.message
  | .notExchanged cause => "failed to exchange source with formatter: " ++ cause.message
  | .failed status errors => "formatter exited with " ++ status.text ++ ": " ++ errors
  | .notText fault => "formatter produced invalid UTF-8: " ++ fault.message
  | .other text => text

/-- Turns source into its final form. It may keep a state. -/
abbrev Formatter (σ : Type) := String → FormatOptions → ExceptT FormatError (StateM σ) String

/-- The formatter that changes nothing. -/
def Formatter.identity {σ : Type} : Formatter σ := fun source _ => pure source

/-- A program with the arguments that come before the flags. -/
structure FormatCommand where
  program : String
  args : List String
deriving DecidableEq, Repr

namespace FormatCommand

def standard : FormatCommand := ⟨"npx", ["prettier"]⟩

/-- The words of a line: a program and its arguments. A blank line is no command. -/
def ofLine? (line : String) : Option FormatCommand :=
  match Text.words line with
  | [] => none
  | program :: args => some ⟨program, args⟩

/-- What the end of the program means. A failure reports the error text, whatever became of the
input. A success reports the output if the input was written. -/
def outcome (result : ProgramResult) : Except FormatError String :=
  if result.status.isSuccess then
    match result.inputFault with
    | some (.unwritten cause) => .error (.notExchanged cause)
    | some .panicked => .error (.other "formatter input thread panicked")
    | none =>
      match Text.ofUtf8 result.output with
      | .ok text => .ok text
      | .error fault => .error (.notText fault)
  else .error (.failed result.status (Text.trim (Text.ofUtf8Replacing result.errors)))

/-- Pipes the source through the program. -/
def formatter {σ : Type} (command : FormatCommand) (launch : Launcher σ) : Formatter σ :=
  fun source options => ExceptT.mk do
    match ← launch command.program (command.args ++ options.flags) source.toUTF8 with
    | .error (.notStarted cause) => return .error (.notStarted command.program cause)
    | .error (.notAwaited cause) => return .error (.notExchanged cause)
    | .ok result => return outcome result

end FormatCommand
end SchemaTypes
