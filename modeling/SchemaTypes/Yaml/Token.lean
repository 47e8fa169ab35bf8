import SchemaTypes.Yaml.Tag

/-! The tokens of YAML text, and those of them that are names and directives. -/
namespace SchemaTypes.Yaml

inductive Token where
  | streamEnd
  | version (major minor : Nat)
  /-- A directive that lets `handle` stand for the start of tags. -/
  | tagHandle (handle : String) (start : List UInt8)
  | documentStart
  | documentEnd
  | blockSequenceStart
  | blockMappingStart
  | blockEnd
  | flowSequenceStart
  | flowSequenceEnd
  | flowMappingStart
  | flowMappingEnd
  /-- A dash in front of an item. -/
  | entry
  | comma
  | key
  | value
  | alias (name : String)
  | anchor (name : String)
  | tag (tag : WrittenTag)
  | scalar (text : String) (plain : Bool)
deriving DecidableEq, Repr

/-- The name behind `&` or `*`. -/
def anchorName? (c : Cursor) : Option (String × Cursor) :=
  let (name, c) := c.span isWordChar
  let ends := match c.rest with
    | [] => true
    | ch :: _ => isGap ch || "?:,]\x7d%@\x60".toList.contains ch
  if name.isEmpty || !ends then none else some (String.ofList name, c)

/-- A number of at most nine digits. -/
def versionNumber? (c : Cursor) : Option (Nat × Cursor) :=
  let (digits, c) := c.span Char.isDigit
  if digits.isEmpty || 9 < digits.length then none else some (Text.digitsValue digits, c)

def versionDirective? (c : Cursor) : Option (Token × Cursor) := do
  let (major, c) ← versionNumber? (c.skipWhile isBlank)
  match c.rest with
  | '.' :: _ =>
    let (minor, c) ← versionNumber? (c.skip 1)
    return (.version major minor, c)
  | _ => none

/-- A directive and the rest of its line. -/
def directive? (c : Cursor) : Option (Token × Cursor) := do
  let (name, c) := (c.skip 1).span isWordChar
  if name.isEmpty || !atGap c.rest then none
  let (token, c) ← if name == "YAML".toList then versionDirective? c
    else if name == "TAG".toList then
      (tagDirective? c).map fun ((handle, start), c) => (.tagHandle handle start, c)
    else none
  return (token, ← c.skipToLineEnd?)

end SchemaTypes.Yaml
