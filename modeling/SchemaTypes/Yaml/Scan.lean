import SchemaTypes.Yaml.Scalar
import SchemaTypes.Yaml.Token

/-! YAML text as tokens. The indentation of blocks is turned into tokens that open and close
them, and a mapping key is known as one when its colon is met. -/
namespace SchemaTypes.Yaml

/-- A place where a mapping key may have begun. -/
structure PossibleKey where
  /-- Whether nothing but a key can stand there. -/
  required : Bool
  /-- The number of tokens before it. -/
  token : Nat
  index : Nat
  line : Nat
  column : Nat

/-- The state between two tokens. -/
structure Scanner where
  cursor : Cursor
  /-- The tokens so far, the last one first. -/
  tokens : List Token := []
  count : Nat := 0
  /-- The columns of the open blocks, the innermost first. -/
  indents : List Nat := []
  /-- The possible key of every open bracket and of the block around them, the innermost first. -/
  keys : List (Option PossibleKey) := [none]
  /-- Whether a key may begin here. -/
  keyAllowed : Bool := true

namespace Scanner

/-- Whether the position is inside brackets. -/
def inFlow (s : Scanner) : Bool := !(s.keys.drop 1).isEmpty

def emit (s : Scanner) (token : Token) : Scanner :=
  { s with tokens := token :: s.tokens, count := s.count + 1 }

/-- Puts a token behind the first `n` ones. -/
def emitAt (s : Scanner) (n : Nat) (token : Token) : Scanner :=
  let late := s.count - n
  { s with tokens := s.tokens.take late ++ token :: s.tokens.drop late, count := s.count + 1 }

def moveTo (s : Scanner) (c : Cursor) : Scanner := { s with cursor := c }

/-- Passes over blanks, comments and empty lines, and over a byte order mark at the start of a line.
Where a key may begin in a block, a tab is no blank. -/
def toNextToken (s : Scanner) : Nat → Scanner
  | 0 => s
  | fuel + 1 =>
    let c := s.cursor.skipByteOrderMark
    let c := c.skipWhile fun ch => ch == ' ' || ((s.inFlow || !s.keyAllowed) && ch == '\t')
    let c := if c.rest.head? == some '#' then c.skipWhile fun ch => !isBreak ch else c
    if c.rest.head?.any isBreak then
      toNextToken { s with cursor := c.skipBreak, keyAllowed := s.keyAllowed || !s.inFlow } fuel
    else s.moveTo c

/-- A key ends on the line it begins on, within 1024 bytes. -/
def isStale (c : Cursor) (key : PossibleKey) : Bool :=
  key.line < c.line || key.index + 1024 < c.index

/-- Gives up the possible keys that the position has passed; a required one is an error. -/
def dropStale? (s : Scanner) : Option Scanner := do
  let keys ← s.keys.mapM fun key? =>
    match key? with
    | none => some none
    | some key =>
      if isStale s.cursor key then (if key.required then none else some none) else some (some key)
  return { s with keys }

/-- Gives up the innermost possible key; a required one is an error. -/
def dropKey? (s : Scanner) : Option Scanner :=
  match s.keys with
  | some key :: keys => if key.required then none else some { s with keys := none :: keys }
  | _ => some s

/-- Notes that a key may begin here. -/
def saveKey? (s : Scanner) : Option Scanner :=
  if s.keyAllowed then do
    let c := s.cursor
    let required := !s.inFlow && s.indents.head? == some c.column
    let s ← s.dropKey?
    return { s with keys := some ⟨required, s.count, c.index, c.line, c.column⟩ :: s.keys.drop 1 }
  else some s

/-- Whether `column` is to the right of the innermost block. -/
def isDeeper (s : Scanner) (column : Nat) : Bool :=
  match s.indents with
  | [] => true
  | indent :: _ => indent < column

/-- Opens a block at `column` if that is deeper than the open ones, with its token behind the
first `n`. -/
def openBlock (s : Scanner) (column n : Nat) (token : Token) : Scanner :=
  if !s.inFlow && s.isDeeper column then
    { s.emitAt n token with indents := column :: s.indents }
  else s

/-- Closes the blocks to the right of `column`, or all of them. -/
def closeBlocks (s : Scanner) (column : Option Nat) : Scanner :=
  if s.inFlow then s
  else
    let isOpen := fun indent : Nat => column.any (indent ≤ ·)
    let closed := s.indents.takeWhile fun indent => !isOpen indent
    { s with
      tokens := List.replicate closed.length .blockEnd ++ s.tokens
      count := s.count + closed.length
      indents := s.indents.drop closed.length }

/-- Emits a token of `n` characters. -/
def mark (s : Scanner) (n : Nat) (token : Token) : Scanner :=
  (s.emit token).moveTo (s.cursor.skip n)

def allowKey (s : Scanner) (yes : Bool) : Scanner := { s with keyAllowed := yes }

def documentMark? (s : Scanner) (token : Token) : Option Scanner := do
  return (← (s.closeBlocks none).dropKey?).allowKey false |>.mark 3 token

def openFlow? (s : Scanner) (token : Token) : Option Scanner := do
  let s ← s.saveKey?
  return { s with keys := none :: s.keys }.allowKey true |>.mark 1 token

def closeFlow? (s : Scanner) (token : Token) : Option Scanner := do
  let s ← s.dropKey?
  let s := if s.inFlow then { s with keys := s.keys.drop 1 } else s
  return s.allowKey false |>.mark 1 token

def comma? (s : Scanner) : Option Scanner := do
  return (← s.dropKey?).allowKey true |>.mark 1 .comma

def entry? (s : Scanner) : Option Scanner := do
  if !s.inFlow && !s.keyAllowed then none
  let s := s.openBlock s.cursor.column s.count .blockSequenceStart
  return (← s.dropKey?).allowKey true |>.mark 1 .entry

def key? (s : Scanner) : Option Scanner := do
  if !s.inFlow && !s.keyAllowed then none
  let s := s.openBlock s.cursor.column s.count .blockMappingStart
  return (← s.dropKey?).allowKey (!s.inFlow) |>.mark 1 .key

/-- A colon: the possible key becomes one, otherwise the key was marked or is empty. -/
def value? (s : Scanner) : Option Scanner :=
  match s.keys with
  | some key :: keys =>
    let s := { s with keys := none :: keys }.emitAt key.token .key
    let s := s.openBlock key.column key.token .blockMappingStart
    some (s.allowKey false |>.mark 1 .value)
  | _ =>
    if !s.inFlow && !s.keyAllowed then none
    else
      let s := s.openBlock s.cursor.column s.count .blockMappingStart
      some (s.allowKey (!s.inFlow) |>.mark 1 .value)

def anchor? (s : Scanner) (token : String → Token) : Option Scanner := do
  let s ← s.saveKey?
  let (name, c) ← anchorName? (s.cursor.skip 1)
  return (s.allowKey false |>.emit (token name)).moveTo c

def tag? (s : Scanner) : Option Scanner := do
  let s ← s.saveKey?
  let (tag, c) ← writtenTag? s.inFlow s.cursor
  return (s.allowKey false |>.emit (.tag tag)).moveTo c

def block? (s : Scanner) (literal : Bool) : Option Scanner := do
  let s ← s.dropKey?
  let (text, c) ← blockText? literal s.indents.head? (s.cursor.skip 1)
  return (s.allowKey true |>.emit (.scalar (String.ofList text) false)).moveTo c

def quoted? (s : Scanner) (quote : Char) : Option Scanner := do
  let s ← s.saveKey?
  let c := s.cursor.skip 1
  let (text, c) ← quotedFrom? quote [] (c.left + 1) c
  return (s.allowKey false |>.emit (.scalar (String.ofList text) false)).moveTo c

def plain? (s : Scanner) : Option Scanner := do
  let s ← s.saveKey?
  let indent := match s.indents with
    | [] => 0
    | indent :: _ => indent + 1
  let p ← plainFrom? s.inFlow indent [] {} (s.cursor.left + 1) s.cursor
  return (s.allowKey p.endsLine |>.emit (.scalar (String.ofList p.text) true)).moveTo p.next

/-- Characters that no plain scalar starts with, unless a rule for the next character says so. -/
def isIndicator (c : Char) : Bool := "-?:,[]\x7b\x7d#&*!|>'\"%@\x60".toList.contains c

/-- Whether a plain scalar may start with `c` in front of `rest`. -/
def startsPlain (flow : Bool) (c : Char) (rest : List Char) : Bool :=
  !(isGap c || isIndicator c)
    || (c == '-' && !rest.head?.any isBlank)
    || (!flow && (c == '?' || c == ':') && !atGap rest)

/-- Reads the token at the position, which is not at the end of the text. -/
def token? (s : Scanner) (c : Char) (rest : List Char) : Option Scanner :=
  let flow := s.inFlow
  if s.cursor.column == 0 && c == '%' then do
    let s ← (s.closeBlocks none).dropKey?
    let (token, cursor) ← directive? s.cursor
    return (s.allowKey false |>.emit token).moveTo cursor
  else if s.cursor.atMark then
    s.documentMark? (if c == '-' then .documentStart else .documentEnd)
  else
    match c with
    | '[' => s.openFlow? .flowSequenceStart
    | '\x7b' => s.openFlow? .flowMappingStart
    | ']' => s.closeFlow? .flowSequenceEnd
    | '\x7d' => s.closeFlow? .flowMappingEnd
    | ',' => s.comma?
    | '*' => s.anchor? .alias
    | '&' => s.anchor? .anchor
    | '!' => s.tag?
    | '\'' => s.quoted? '\''
    | '"' => s.quoted? '"'
    | c =>
      if c == '-' && atGap rest then s.entry?
      else if c == '?' && (flow || atGap rest) then s.key?
      else if c == ':' && (flow || atGap rest) then s.value?
      else if c == '|' && !flow then s.block? true
      else if c == '>' && !flow then s.block? false
      else if startsPlain flow c rest then s.plain?
      else none

/-- Reads at most `fuel` tokens. Every one takes a character, so the length of the text is
enough. -/
def run? (s : Scanner) : Nat → Option (List Token)
  | 0 => none
  | fuel + 1 => do
    let s ← (s.toNextToken (s.cursor.left + 1)).dropStale?
    let s := s.closeBlocks (some s.cursor.column)
    match s.cursor.rest with
    | [] =>
      let s ← (s.closeBlocks none).dropKey?
      return (s.emit .streamEnd).tokens.reverse
    | c :: rest => run? (← s.token? c rest) fuel

end Scanner

/-- The tokens of a text. -/
def tokens? (text : String) : Option (List Token) :=
  let cursor := Cursor.ofText text.toList
  if cursor.rest.all isAllowed then Scanner.run? { cursor } (cursor.left + 1) else none

end SchemaTypes.Yaml
