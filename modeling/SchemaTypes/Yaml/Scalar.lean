import SchemaTypes.Text
import SchemaTypes.Yaml.Cursor

/-! The text of scalars: plain, quoted, and in blocks. -/
namespace SchemaTypes.Yaml

/-- What stands between two pieces of a scalar. -/
structure Gap where
  /-- Blanks before the first line break. -/
  blanks : List Char := []
  /-- The first line break. -/
  first : List Char := []
  /-- The further line breaks. -/
  more : List Char := []
  /-- Whether the line ended. -/
  broken : Bool := false

/-- A single line break is read as a space; of several the first is dropped. -/
def Gap.text (gap : Gap) : List Char :=
  if gap.broken then
    if gap.first = ['\n'] then (if gap.more.isEmpty then [' '] else gap.more)
    else gap.first ++ gap.more
  else gap.blanks

/-- Reads on through blanks and line breaks. Behind a line break no tab may stand left of the
column `indent`. -/
def Gap.read? (indent : Nat) (gap : Gap) : Nat → Cursor → Option (Gap × Cursor)
  | 0, c => some (gap, c)
  | fuel + 1, c =>
    match c.rest with
    | [] => some (gap, c)
    | ch :: _ =>
      if isBlank ch then
        if gap.broken then
          if ch = '\t' ∧ c.column < indent then none else gap.read? indent fuel (c.skip 1)
        else Gap.read? indent { gap with blanks := gap.blanks ++ [ch] } fuel (c.skip 1)
      else if isBreak ch then
        let (text, c) := c.takeBreak
        if gap.broken then Gap.read? indent { gap with more := gap.more ++ text } fuel c
        else Gap.read? indent { first := text, broken := true } fuel c
      else some (gap, c)

/-- Characters that end a plain scalar inside brackets. -/
def isFlowMark (c : Char) : Bool := c == ',' || c == '[' || c == ']' || c == '\x7b' || c == '\x7d'

/-- The length of the piece of a plain scalar up to a blank, a line break or a character that ends
the scalar. Inside brackets a colon in front of a bracket, a comma or a question mark is refused. -/
def plainPiece? (flow : Bool) (taken : Nat) : List Char → Option Nat
  | [] => some taken
  | c :: rest =>
    if isGap c then some taken
    else if flow && c == ':' && rest.head?.any (fun d => isFlowMark d || d == '?') then none
    else if (c == ':' && atGap rest) || (flow && isFlowMark c) then some taken
    else plainPiece? flow (taken + 1) rest

/-- A scalar's text, whether it ended behind a line break, and where. -/
structure PlainText where
  text : List Char
  endsLine : Bool
  next : Cursor

/-- A plain scalar behind the pieces in `text`, which are kept in reverse, and the gap after them.
In a block its lines stand to the right of the column `indent - 1`. -/
def plainFrom? (flow : Bool) (indent : Nat) (text : List Char) (gap : Gap) :
    Nat → Cursor → Option PlainText
  | 0, c => some ⟨text.reverse, gap.broken, c⟩
  | fuel + 1, c =>
    if c.atMark || c.rest.head? == some '#' then some ⟨text.reverse, gap.broken, c⟩
    else
      match plainPiece? flow 0 c.rest with
      | none => none
      | some 0 => some ⟨text.reverse, gap.broken, c⟩
      | some (n + 1) =>
        let text := (c.rest.take (n + 1)).reverse ++ (gap.text.reverse ++ text)
        let c := c.skip (n + 1)
        match Gap.read? indent {} c.left c with
        | none => none
        | some (gap, next) =>
          if next.index = c.index then some ⟨text.reverse, false, next⟩
          else if !flow && next.column < indent then some ⟨text.reverse, gap.broken, next⟩
          else plainFrom? flow indent text gap fuel next

/-- What a letter behind a backslash stands for: a character, or a code of so many digits. -/
def doubleEscape? (c : Char) : Option (Char ⊕ Nat) :=
  match c with
  | '0' => some (.inl '\u0000')
  | 'a' => some (.inl '\u0007')
  | 'b' => some (.inl '\u0008')
  | 't' | '\t' => some (.inl '\t')
  | 'n' => some (.inl '\n')
  | 'v' => some (.inl '\u000b')
  | 'f' => some (.inl '\u000c')
  | 'r' => some (.inl '\r')
  | 'e' => some (.inl '\u001b')
  | ' ' => some (.inl ' ')
  | '"' => some (.inl '"')
  | '/' => some (.inl '/')
  | '\\' => some (.inl '\\')
  | 'N' => some (.inl '\u0085')
  | '_' => some (.inl '\u00a0')
  | 'L' => some (.inl '\u2028')
  | 'P' => some (.inl '\u2029')
  | 'x' => some (.inr 2)
  | 'u' => some (.inr 4)
  | 'U' => some (.inr 8)
  | _ => none

/-- A piece of a quoted scalar: the text up to its end in reverse, how many characters it takes,
and whether a backslash ended the line. -/
structure QuotedPiece where
  text : List Char
  taken : Nat := 0
  escapedBreak : Bool := false

/-- The piece with one more character, written as `n` ones. -/
def QuotedPiece.add (piece : QuotedPiece) (c : Char) (n : Nat) : QuotedPiece :=
  { piece with text := c :: piece.text, taken := piece.taken + n }

def singlePiece (piece : QuotedPiece) : List Char → QuotedPiece
  | [] => piece
  | '\'' :: '\'' :: rest => singlePiece (piece.add '\'' 2) rest
  | c :: rest => if isGap c || c == '\'' then piece else singlePiece (piece.add c 1) rest

def doublePiece? (piece : QuotedPiece) : Nat → List Char → Option QuotedPiece
  | 0, _ | _, [] => some piece
  | fuel + 1, '\\' :: c :: rest =>
    if isBreak c then some { piece with taken := piece.taken + 1, escapedBreak := true }
    else
      match doubleEscape? c with
      | none => none
      | some (.inl ch) => doublePiece? (piece.add ch 2) fuel rest
      | some (.inr digits) =>
        match Text.hexCode? 0 digits rest with
        | none => none
        | some (code, rest) =>
          if (0xD800 ≤ code ∧ code ≤ 0xDFFF) ∨ 0x10FFFF < code then none
          else doublePiece? (piece.add (Char.ofNat code) (digits + 2)) fuel rest
  | fuel + 1, c :: rest =>
    if isGap c || c == '"' then some piece
    else if c = '\\' then none
    else doublePiece? (piece.add c 1) fuel rest

/-- A quoted scalar from behind its opening quote, behind the text in `text`, which is kept in
reverse. -/
def quotedFrom? (quote : Char) (text : List Char) : Nat → Cursor → Option (List Char × Cursor)
  | 0, _ => none
  | fuel + 1, c =>
    if c.atMark || c.rest.isEmpty then none
    else
      let piece? := if quote == '\'' then some (singlePiece { text } c.rest)
        else doublePiece? { text } c.left c.rest
      match piece? with
      | none => none
      | some piece =>
        let c := c.skip piece.taken
        let c := if piece.escapedBreak then c.skipBreak else c
        match c.rest with
        | [] => none
        | ch :: _ =>
          if ch == quote then some (piece.text.reverse, c.skip 1)
          else
            match Gap.read? 0 { broken := piece.escapedBreak } c.left c with
            | none => none
            | some (gap, c) => quotedFrom? quote (gap.text.reverse ++ piece.text) fuel c

/-- What to do with the line breaks at the end of a block scalar. -/
inductive Chomping where
  | strip
  | clip
  | keep
deriving DecidableEq, Repr

structure BlockHeader where
  chomping : Chomping
  /-- The number of columns the text stands to the right of its parent, if given. -/
  indent : Option Nat
deriving DecidableEq, Repr

def chomping? (c : Cursor) : Option (Chomping × Cursor) :=
  match c.rest with
  | '+' :: _ => some (.keep, c.skip 1)
  | '-' :: _ => some (.strip, c.skip 1)
  | _ => none

/-- A digit from 1 to 9, `some none` without any digit. -/
def indentDigit? (c : Cursor) : Option (Option Nat × Cursor) :=
  match c.rest with
  | d :: _ =>
    if d.isDigit then
      if d = '0' then none else some (some (d.toNat - '0'.toNat), c.skip 1)
    else some (none, c)
  | [] => some (none, c)

/-- The indicators behind `|` or `>`, in either order. -/
def blockHeader? (c : Cursor) : Option (BlockHeader × Cursor) :=
  match chomping? c with
  | some (chomping, c) => do
    let (indent, c) ← indentDigit? c
    return (⟨chomping, indent⟩, c)
  | none => do
    let (indent, c) ← indentDigit? c
    match indent, chomping? c with
    | some _, some (chomping, c) => return (⟨chomping, indent⟩, c)
    | _, _ => return (⟨.clip, indent⟩, c)

/-- The line breaks in front of the next line of text, behind those in `breaks`, the widest
indentation met, and the position of the text. Without a known `indent` every column counts. -/
def blockBreaks? (indent : Option Nat) (breaks : List Char) (widest : Nat) :
    Nat → Cursor → Option (List Char × Nat × Cursor)
  | 0, c => some (breaks, widest, c)
  | fuel + 1, c =>
    let room := match indent with
      | none => c.left
      | some n => n - c.column
    let c := c.skip ((c.rest.take room).takeWhile (· == ' ')).length
    let widest := max widest c.column
    let inside := match indent with
      | none => true
      | some n => c.column < n
    match c.rest with
    | [] => some (breaks, widest, c)
    | ch :: _ =>
      if inside && ch == '\t' then none
      else if isBreak ch then
        let (text, c) := c.takeBreak
        blockBreaks? indent (breaks ++ text) widest fuel c
      else some (breaks, widest, c)

/-- What the lines read so far leave open: the text in reverse, the last line break and those after
it, and whether the last line began with a blank. -/
structure BlockText where
  text : List Char := []
  last : List Char := []
  breaks : List Char := []
  startedBlank : Bool := false

/-- What the open line breaks are read as in front of a line that starts with a blank or not. In a
folded scalar one break between two lines of text is read as a space. -/
def BlockText.joint (b : BlockText) (literal startsBlank : Bool) : List Char :=
  if !literal && b.last == ['\n'] && !b.startedBlank && !startsBlank then
    (if b.breaks.isEmpty then [' '] else []) ++ b.breaks
  else b.last ++ b.breaks

def blockLines? (literal : Bool) (indent : Nat) (b : BlockText) :
    Nat → Cursor → Option (BlockText × Cursor)
  | 0, c => some (b, c)
  | fuel + 1, c =>
    if c.column = indent ∧ !c.rest.isEmpty then
      let startsBlank := c.rest.head?.any isBlank
      let (line, c) := c.span fun ch => !isBreak ch
      let (last, c) := c.takeBreak
      match blockBreaks? (some indent) [] 0 c.left c with
      | none => none
      | some (breaks, _, c) =>
        let text := line.reverse ++ ((b.joint literal startsBlank).reverse ++ b.text)
        blockLines? literal indent ⟨text, last, breaks, startsBlank⟩ fuel c
    else some (b, c)

/-- A block scalar from behind its `|` or `>`. `parent` is the column of the collection around it,
if there is one. -/
def blockText? (literal : Bool) (parent : Option Nat) (c : Cursor) :
    Option (List Char × Cursor) := do
  let (header, c) ← blockHeader? c
  let c ← c.skipToLineEnd?
  let given := header.indent.map fun n => (parent.getD 0) + n
  let (breaks, widest, c) ← blockBreaks? given [] 0 (c.left + 1) c
  let indent := given.getD (max (max widest ((parent.map (· + 1)).getD 0)) 1)
  let (b, c) ← blockLines? literal indent { breaks } (c.left + 1) c
  let tail := match header.chomping with
    | .strip => []
    | .clip => b.last
    | .keep => b.last ++ b.breaks
  return (b.text.reverse ++ tail, c)

end SchemaTypes.Yaml
