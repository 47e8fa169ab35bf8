import SchemaTypes.Text
import SchemaTypes.Yaml.Cursor

/-! Tags: how they are written, and what they say of a value. -/
namespace SchemaTypes.Yaml

/-- What a tag says of a value. -/
inductive Tag where
  | null
  | bool
  | int
  | float
  /-- A type of the document's own: an exclamation mark and text. -/
  | own
  /-- An exclamation mark and bytes that are no text. -/
  | garbled
  | other
deriving DecidableEq, Repr

namespace Tag

/-- What the tags of the standard's own types begin with. -/
def coreStart : String := "tag:yaml.org,2002:"

def ofText (text : String) : Tag :=
  if text.startsWith "!" then .own
  else if text = coreStart ++ "null" then .null
  else if text = coreStart ++ "bool" then .bool
  else if text = coreStart ++ "int" then .int
  else if text = coreStart ++ "float" then .float
  else .other

/-- A tag is made of bytes, since its escapes may give any. -/
def ofBytes (bytes : List UInt8) : Tag :=
  match String.fromUTF8? ⟨bytes.toArray⟩ with
  | some text => ofText text
  | none => if bytes.head? = some 0x21 then .garbled else .other

end Tag

/-- A tag as written: a handle, which stands for the start of the tag, and the bytes after it. -/
structure WrittenTag where
  handle : String
  suffix : List UInt8
deriving DecidableEq, Repr

/-- What the handles of tags stand for. -/
abbrev TagHandles := List (String × List UInt8)

/-- The handles that every document knows. -/
def defaultHandles : TagHandles :=
  [("!", "!".toUTF8.toList), ("!!", Tag.coreStart.toUTF8.toList)]

/-- The tag with its handle replaced. No handle stands for nothing, an unknown one is an error. -/
def WrittenTag.resolve? (tag : WrittenTag) (handles : TagHandles) : Option Tag :=
  if tag.handle = "" then some (.ofBytes tag.suffix)
  else (handles.lookup tag.handle).map fun start => .ofBytes (start ++ tag.suffix)

def isUriChar (flowMarks : Bool) (c : Char) : Bool :=
  isWordChar c || ";/?:@&=+$.%!~*'()".toList.contains c || (flowMarks && ",[]".toList.contains c)

/-- The byte that `%` and two digits give in front of the text. -/
def escapedByte? : List Char → Option UInt8
  | '%' :: a :: b :: _ => do
    return UInt8.ofNat ((← Text.hexDigit? a) * 16 + (← Text.hexDigit? b))
  | _ => none

/-- The number of bytes that a first byte asks for. -/
def byteWidth? (b : UInt8) : Option Nat :=
  if b < 0x80 then some 1
  else if b &&& 0xE0 = 0xC0 then some 2
  else if b &&& 0xF0 = 0xE0 then some 3
  else if b &&& 0xF8 = 0xF0 then some 4
  else none

/-- The next `n` bytes, all of them continuation bytes, behind those in `acc`. -/
def escapedTail? (acc : List UInt8) : Nat → List Char → Option (List UInt8)
  | 0, _ => some acc.reverse
  | n + 1, cs =>
    match escapedByte? cs with
    | some b => if b &&& 0xC0 = 0x80 then escapedTail? (b :: acc) n (cs.drop 3) else none
    | none => none

/-- A first byte and as many continuation bytes as it asks for. Whether they spell a character
does not matter. -/
def escapedBytes? (cs : List Char) : Option (List UInt8) := do
  let first ← escapedByte? cs
  escapedTail? [first] ((← byteWidth? first) - 1) (cs.drop 3)

/-- The bytes of a tag in front of the text, with `%` escapes read: three characters for each
byte. -/
def uriBytes? (flowMarks : Bool) (acc : List UInt8) : Nat → Cursor → Option (List UInt8 × Cursor)
  | 0, c => some (acc.reverse, c)
  | fuel + 1, c =>
    match c.rest with
    | [] => some (acc.reverse, c)
    | ch :: _ =>
      if ch = '%' then
        match escapedBytes? c.rest with
        | some bytes => uriBytes? flowMarks (bytes.reverse ++ acc) fuel (c.skip (3 * bytes.length))
        | none => none
      else if isUriChar flowMarks ch then
        uriBytes? flowMarks (ch.toNat.toUInt8 :: acc) fuel (c.skip 1)
      else some (acc.reverse, c)

def uri? (flowMarks : Bool) (c : Cursor) : Option (List UInt8 × Cursor) :=
  uriBytes? flowMarks [] c.left c

/-- A zero byte ends a tag, or a part of one. -/
def upToZero (bytes : List UInt8) : List UInt8 := bytes.takeWhile (· != 0)

/-- A `!`, word characters, and a second `!` if there is one. -/
def tagHandle? (c : Cursor) : Option (List Char × Cursor) :=
  match c.rest with
  | '!' :: _ =>
    let (word, c) := (c.skip 1).span isWordChar
    match c.rest with
    | '!' :: _ => some ('!' :: word ++ ['!'], c.skip 1)
    | _ => some ('!' :: word, c)
  | _ => none

/-- Whether a handle is `!!` or `!word!`. -/
def isNamedHandle (handle : List Char) : Bool :=
  2 ≤ handle.length && handle.getLast? == some '!'

/-- A tag behind `!<`. -/
def verbatimTag? (c : Cursor) : Option (WrittenTag × Cursor) := do
  let (bytes, c) ← uri? true c
  if bytes.isEmpty then none
  match c.rest with
  | '>' :: _ => return (⟨"", upToZero bytes⟩, c.skip 1)
  | _ => none

/-- A handle and a suffix, or `!` and a suffix. A lone `!` has no handle. -/
def shorthandTag? (c : Cursor) : Option (WrittenTag × Cursor) := do
  let (handle, c) ← tagHandle? c
  let (suffix, c) ← uri? false c
  if isNamedHandle handle then
    if suffix.isEmpty then none
    return (⟨String.ofList handle, upToZero suffix⟩, c)
  else
    let suffix := upToZero ((String.ofList (handle.drop 1)).toUTF8.toList ++ suffix)
    return (if suffix.isEmpty then ⟨"", "!".toUTF8.toList⟩ else ⟨"!", suffix⟩, c)

/-- A tag: `!<uri>`, a handle and a suffix, or `!` and a suffix. -/
def writtenTag? (flow : Bool) (c : Cursor) : Option (WrittenTag × Cursor) := do
  let (tag, c) ← match c.rest with
    | '!' :: '<' :: _ => verbatimTag? (c.skip 2)
    | _ => shorthandTag? c
  if atGap c.rest || (flow && c.rest.head? == some ',') then return (tag, c) else none

/-- What follows the name of a directive that lets a handle stand for the start of tags. -/
def tagDirective? (c : Cursor) : Option ((String × List UInt8) × Cursor) := do
  let (handle, c) ← tagHandle? (c.skipWhile isBlank)
  if !(isNamedHandle handle || handle == ['!']) then none
  if !(c.rest.head?.any isBlank) then none
  let (start, c) ← uri? true (c.skipWhile isBlank)
  if start.isEmpty || !atGap c.rest then none
  return ((String.ofList handle, upToZero start), c)

end SchemaTypes.Yaml
