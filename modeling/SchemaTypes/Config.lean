import SchemaTypes.Toml.Reader

/-! The settings of a configuration file. -/
namespace SchemaTypes

/-- What a configuration file sets: the name of the interface, the text in front of it, and the
command line of the formatter. -/
structure Config where
  container : Option String := none
  banner : Option String := none
  command : Option String := none
deriving DecidableEq, Repr

namespace Config

def fileName : String := "swagger-ts.toml"

/-- A setting is a text, and may be left out. -/
def text? : Option Toml.Value → Option (Option String)
  | none => some none
  | some (.string text) => some (some text)
  | some _ => none

/-- The texts under these names in a table of settings, which has no other names. The table may be
written as the list of its values, and may be left out. -/
def texts? (names : List String) : Option Toml.Value → Option (List (Option String))
  | none => some (names.map fun _ => none)
  | some (.table _ entries) =>
    if (Assoc.keys entries).all names.contains then
      names.mapM fun name => text? (Assoc.find? name entries)
    else none
  | some (.array values) =>
    if values.length < names.length then none
    else (values.take names.length).mapM fun value => text? (some value)
  | some _ => none

def ofEntries? (entries : Toml.Entries) : Option Config :=
  if (Assoc.keys entries).all ["output", "formatter"].contains then do
    let output ← texts? ["container", "banner"] (Assoc.find? "output" entries)
    let formatter ← texts? ["command"] (Assoc.find? "formatter" entries)
    match output, formatter with
    | [container, banner], [command] => return { container, banner, command }
    | _, _ => none
  else none

/-- The settings in a file's text. Unknown names are refused. -/
def ofToml? (text : String) : Option Config := do ofEntries? (← Toml.document? text)

end Config
end SchemaTypes
