/-! Pieces of text: words between blanks, digits, pairs of characters, quoted literals. -/
namespace SchemaTypes.Text

/-! ### Blanks, and the words between them -/

/-- The characters with the Unicode property White_Space. -/
def isBlank (c : Char) : Bool :=
  let n := c.toNat
  (0x9 ≤ n && n ≤ 0xD) || n == 0x20 || n == 0x85 || n == 0xA0 || n == 0x1680
    || (0x2000 ≤ n && n ≤ 0x200A) || n == 0x2028 || n == 0x2029 || n == 0x202F
    || n == 0x205F || n == 0x3000

/-- Drops the blanks at both ends. -/
def trimChars (cs : List Char) : List Char :=
  ((cs.dropWhile isBlank).reverse.dropWhile isBlank).reverse

def trim (s : String) : String := String.ofList (trimChars s.toList)

/-- The maximal runs of characters that are not blank; `word` is the run that is open, in
reverse. -/
def wordsFrom (word : List Char) : List Char → List (List Char)
  | [] => if word.isEmpty then [] else [word.reverse]
  | c :: cs =>
    if isBlank c then
      if word.isEmpty then wordsFrom [] cs else word.reverse :: wordsFrom [] cs
    else wordsFrom (c :: word) cs

def words (s : String) : List String := (wordsFrom [] s.toList).map String.ofList

/-- The texts one after the other, with `separator` between neighbours. -/
def join (separator : String) : List String → String
  | [] => ""
  | [s] => s
  | s :: t :: rest => s ++ separator ++ join separator (t :: rest)

/-! ### Digits -/

/-- The value of a hexadecimal digit, in either case. -/
def hexDigit? (c : Char) : Option Nat :=
  if '0' ≤ c ∧ c ≤ '9' then some (c.toNat - '0'.toNat)
  else if 'a' ≤ c ∧ c ≤ 'f' then some (c.toNat - 'a'.toNat + 10)
  else if 'A' ≤ c ∧ c ≤ 'F' then some (c.toNat - 'A'.toNat + 10)
  else none

/-- The number that decimal digits spell. -/
def digitsValue (cs : List Char) : Nat :=
  cs.foldl (fun n c => n * 10 + (c.toNat - '0'.toNat)) 0

/-- The value of exactly `n` hexadecimal digits, behind the value `acc`, and the text after them. -/
def hexCode? (acc : Nat) : Nat → List Char → Option (Nat × List Char)
  | 0, rest => some (acc, rest)
  | _ + 1, [] => none
  | n + 1, c :: rest =>
    match hexDigit? c with
    | some v => hexCode? (acc * 16 + v) n rest
    | none => none

/-! ### Pairs of neighbouring characters -/

/-- Every pair `a`, `b` becomes `new`, from left to right; what a replacement wrote is not read
again. -/
def replacePair (a b : Char) (new : List Char) : List Char → List Char
  | [] => []
  | [c] => [c]
  | c :: d :: rest =>
    if c = a ∧ d = b then new ++ replacePair a b new rest
    else c :: replacePair a b new (d :: rest)

@[simp] theorem replacePair_nil (a b : Char) (new : List Char) : replacePair a b new [] = [] := rfl

/-! ### Identifiers and single-quoted literals -/

def isIdentifierStart (c : Char) : Bool := c.isAlpha || c == '_' || c == '$'

def isIdentifierPart (c : Char) : Bool := c.isAlphanum || c == '_' || c == '$'

/-- ASCII letters, digits, `_` and `$`, and no digit in front. -/
def isIdentifier (name : String) : Bool :=
  match name.toList with
  | [] => false
  | c :: cs => isIdentifierStart c && cs.all isIdentifierPart

/-- What stands between single quotes for a character: the quote, the backslash and the four line
terminators have an escape, everything else stands for itself. -/
def escapeSingleChar (c : Char) : List Char :=
  match c with
  | '\\' => ['\\', '\\']
  | '\'' => ['\\', '\'']
  | '\n' => ['\\', 'n']
  | '\r' => ['\\', 'r']
  | '\u2028' => ['\\', 'u', '2', '0', '2', '8']
  | '\u2029' => ['\\', 'u', '2', '0', '2', '9']
  | c => [c]

def escapeSingle (s : String) : String := String.ofList (s.toList.flatMap escapeSingleChar)

def singleQuoted (s : String) : String := "'" ++ escapeSingle s ++ "'"

/-- A property key: an identifier as it is, every other name in quotes. -/
def propertyKey (name : String) : String :=
  if isIdentifier name then name else singleQuoted name

end SchemaTypes.Text
