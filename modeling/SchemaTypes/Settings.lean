import SchemaTypes.Config
import SchemaTypes.Generator

/-! The settings of a run: flags, the configuration file, and defaults. -/
namespace SchemaTypes

/-- One call of the program. -/
structure RunOptions where
  input : String := ""
  output : Option String := none
  config : Option String := none
  formatter : Option String := none
  container : Option String := none
deriving DecidableEq, Repr

structure Settings where
  options : GenerateOptions
  /-- The command line of the formatter, if there is one. -/
  formatter : Option String
deriving DecidableEq, Repr

namespace Settings

/-- Flags come before the file, and the file before the defaults. -/
def resolve (config : Config) (run : RunOptions) : Settings where
  options :=
    let defaults : GenerateOptions := {}
    { container := (run.container <|> config.container).getD defaults.container
      banner := config.banner.getD defaults.banner }
  formatter := run.formatter <|> config.command

/-- Why settings give no generator. -/
inductive Error where
  | blankFormatter
deriving DecidableEq, Repr

def Error.message : Error → String
  | .blankFormatter => "Formatter command is empty"

/-- The generator of the settings, which starts its formatter through `launch`. -/
def generator {σ : Type} (settings : Settings) (launch : Launcher σ) :
    Except Error (Generator σ) :=
  match settings.formatter with
  | none => .ok { options := settings.options }
  | some line =>
    match FormatCommand.ofLine? line with
    | some command => .ok { options := settings.options, formatter := command.formatter launch }
    | none => .error .blankFormatter

end Settings
end SchemaTypes
