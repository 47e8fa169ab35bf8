/-! File paths. -/
namespace SchemaTypes.Path

/-- The text between slashes. -/
def split (path : String) : List String := (path.toList.splitOn '/').map String.ofList

def isAbsolute (path : String) : Bool := path.startsWith "/"

/-- The parts of a path that name something; `.` counts only in front. -/
def components (path : String) : List String :=
  match split path with
  | "." :: rest => "." :: rest.filter fun part => part != "" && part != "."
  | parts => parts.filter fun part => part != "" && part != "."

/-- The name of a file, if the path ends in one. -/
def fileName? (path : String) : Option String :=
  match (components path).getLast? with
  | none | some "." | some ".." => none
  | some name => some name

/-- The text behind the last dot of the file name, if there is a dot that is not its first
character. -/
def extension? (path : String) : Option String := do
  let name ← fileName? path
  let behind := name.toList.reverse.takeWhile (· != '.')
  let front := name.toList.take (name.toList.length - behind.length - 1)
  if behind.length = name.toList.length ∨ front.isEmpty then none
  else some (String.ofList behind.reverse)

/-- The path without its last component, if it has one. -/
def parent? (path : String) : Option String :=
  match (components path).reverse with
  | [] => none
  | _ :: front =>
    let text := "/".intercalate front.reverse
    some (if isAbsolute path then "/" ++ text else text)

def join (directory name : String) : String :=
  if directory.endsWith "/" then directory ++ name else directory ++ "/" ++ name

end SchemaTypes.Path

namespace SchemaTypes

/-- The syntax of a document. -/
inductive InputFormat where
  | json
  | yaml
deriving DecidableEq, Repr

/-- Files that end in `.yaml` or `.yml`, in any case, are YAML; all others are JSON. -/
def InputFormat.ofPath (path : String) : InputFormat :=
  match (Path.extension? path).map fun text => text.map Char.toLower with
  | some "yaml" | some "yml" => .yaml
  | _ => .json

end SchemaTypes
