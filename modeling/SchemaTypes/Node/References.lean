import SchemaTypes.Node.Children
import SchemaTypes.Notice
import SchemaTypes.Text

/-! Replacing references by look-ups in the interface. -/
namespace SchemaTypes

namespace Pointer

/-- How a pointer to a definition starts. -/
def definitionsRoot : List Char := "#/definitions/".toList

/-- Undoes the escapes of a JSON pointer: `~1` is a slash and `~0` a tilde. -/
def unescape (cs : List Char) : List Char :=
  Text.replacePair '~' '0' ['~'] (Text.replacePair '~' '1' ['/'] cs)

/-- The text behind a start it has, if it has it. -/
def afterStart? : List Char → List Char → Option (List Char)
  | [], cs => some cs
  | _ :: _, [] => none
  | c :: start, d :: cs => if c = d then afterStart? start cs else none

/-- The definition that a pointer names, or `none` if it points elsewhere. -/
def definition? (pointer : String) : Option String :=
  (afterStart? definitionsRoot pointer.toList).map fun name => String.ofList (unescape name)

/-- The name to look up: a pointer that leads elsewhere is the name itself, and is noted. -/
def name (pointer : String) : Noted String :=
  match definition? pointer with
  | some name => pure name
  | none => do
    Noted.give (.foreignPointer pointer)
    return pointer

end Pointer

namespace Node

/-- The look-up that stands for a schema with a reference. -/
def lookup (container : String) (schema : SchemaNode) : Noted (Option TypeExpr) :=
  match schema.ref with
  | none => pure none
  | some pointer => do return some (.reference container (← Pointer.name pointer))

/-- Replaces every schema with a reference; nothing below one is looked at. -/
def resolveReferences (container : String) (node : Node) : Noted Node :=
  rebuildM (lookup container) (fun schema => pure (.pending schema)) node

end Node
end SchemaTypes
