/-! Characters and positions of YAML text. -/
namespace SchemaTypes.Yaml

def isBreak (c : Char) : Bool :=
  c == '\n' || c == '\r' || c == '\u0085' || c == '\u2028' || c == '\u2029'

def isBlank (c : Char) : Bool := c == ' ' || c == '\t'

def isGap (c : Char) : Bool := isBlank c || isBreak c

/-- The characters of anchors and of the handles of tags. -/
def isWordChar (c : Char) : Bool := c.isAlphanum || c == '_' || c == '-'

/-- The characters that may stand in YAML text. -/
def isAllowed (c : Char) : Bool :=
  let n := c.toNat
  n == 0x9 || n == 0xA || n == 0xD || (0x20 ≤ n && n ≤ 0x7E) || n == 0x85
    || (0xA0 ≤ n && n ≤ 0xD7FF) || (0xE000 ≤ n && n ≤ 0xFFFD) || 0x10000 ≤ n

/-- Whether a text is at its end, or goes on with a blank or a line break. -/
def atGap : List Char → Bool
  | [] => true
  | c :: _ => isGap c

/-- Whether a text is at the end of a line. -/
def atLineEnd : List Char → Bool
  | [] => true
  | c :: _ => isBreak c

/-- Whether a text starts with the mark of a document's start or end, `---` or `...`. -/
def atDocumentMark : List Char → Bool
  | '-' :: '-' :: '-' :: rest => atGap rest
  | '.' :: '.' :: '.' :: rest => atGap rest
  | _ => false

/-- The bytes that characters take in UTF-8. -/
def byteCount (cs : List Char) : Nat := cs.foldl (fun n c => n + c.utf8Size) 0

/-- The text left to read, and where it stands. -/
structure Cursor where
  rest : List Char
  /-- Bytes of the whole text. -/
  size : Nat
  /-- Bytes before the position. -/
  index : Nat := 0
  line : Nat := 0
  column : Nat := 0

namespace Cursor

/-- The start of a text. -/
def ofText (text : List Char) : Cursor := { rest := text, size := byteCount text }

/-- The number of bytes that are left, at least one for each character. -/
def left (c : Cursor) : Nat := c.size - c.index

/-- Passes over characters of the same line. -/
def skip (c : Cursor) (n : Nat) : Cursor :=
  { c with
    rest := c.rest.drop n
    index := c.index + byteCount (c.rest.take n)
    column := c.column + n }

/-- The characters in front that satisfy `p`, none of which is a line break. -/
def span (c : Cursor) (p : Char → Bool) : List Char × Cursor :=
  let taken := c.rest.takeWhile p
  (taken, c.skip taken.length)

def skipWhile (c : Cursor) (p : Char → Bool) : Cursor := (c.span p).2

/-- Passes over one line break and gives the text it is read as; nothing at the end of the text. -/
def takeBreak (c : Cursor) : List Char × Cursor :=
  match c.rest with
  | [] => ([], c)
  | '\r' :: '\n' :: rest =>
    (['\n'], { c with rest, index := c.index + 2, line := c.line + 1, column := 0 })
  | b :: rest =>
    let text := if b == '\u2028' || b == '\u2029' then [b] else ['\n']
    (text, { c with rest, index := c.index + b.utf8Size, line := c.line + 1, column := 0 })

def skipBreak (c : Cursor) : Cursor := c.takeBreak.2

/-- Passes over a byte order mark at the start of a line, which takes a column. -/
def skipByteOrderMark (c : Cursor) : Cursor :=
  if c.column = 0 ∧ c.rest.head? = some '\uFEFF' then c.skip 1 else c

/-- Whether the position is at a document mark at the start of a line. -/
def atMark (c : Cursor) : Bool := c.column == 0 && atDocumentMark c.rest

/-- Passes over blanks and a comment to the end of the line. -/
def skipToLineEnd? (c : Cursor) : Option Cursor :=
  let c := c.skipWhile isBlank
  let c := match c.rest with
    | '#' :: _ => c.skipWhile fun ch => !isBreak ch
    | _ => c
  if atLineEnd c.rest then some c.skipBreak else none

end Cursor
end SchemaTypes.Yaml
