import SchemaTypes.Json.Value
import SchemaTypes.Text

/-! The tokens of JSON text. -/
namespace SchemaTypes.Json

/-- A token. A string is `none` if it holds an unpaired surrogate, a number if no number has its
magnitude. -/
inductive Token where
  | openArray
  | closeArray
  | openObject
  | closeObject
  | colon
  | comma
  | null
  | bool (value : Bool)
  | number (value : Option Number)
  | string (value : Option String)
deriving DecidableEq, Repr

/-- One piece of a string: a character, or a UTF-16 unit given by an escape. -/
inductive Piece where
  | char (c : Char)
  | unit (n : Nat)
deriving DecidableEq, Repr

def hexUnit? (a b c d : Char) : Option Nat := do
  let high := (← Text.hexDigit? a) * 16 + (← Text.hexDigit? b)
  return high * 256 + (← Text.hexDigit? c) * 16 + (← Text.hexDigit? d)

/-- The character that a backslash and one letter stand for. -/
def simpleEscape? (c : Char) : Option Char :=
  match c with
  | '"' => some '"'
  | '\\' => some '\\'
  | '/' => some '/'
  | 'b' => some '\u0008'
  | 'f' => some '\u000c'
  | 'n' => some '\n'
  | 'r' => some '\r'
  | 't' => some '\t'
  | _ => none

/-- The pieces up to the closing quote, behind those in `acc`, and the text after it. -/
def stringPieces? (acc : List Piece) : List Char → Option (List Piece × List Char)
  | [] => none
  | '"' :: rest => some (acc.reverse, rest)
  | '\\' :: 'u' :: a :: b :: c :: d :: rest =>
    match hexUnit? a b c d with
    | some n => stringPieces? (.unit n :: acc) rest
    | none => none
  | '\\' :: c :: rest =>
    match simpleEscape? c with
    | some c => stringPieces? (.char c :: acc) rest
    | none => none
  | c :: rest => if c.toNat < 0x20 then none else stringPieces? (.char c :: acc) rest

/-- Joins surrogate pairs; `none` if a surrogate stands alone. -/
def joinPieces? (acc : List Char) : List Piece → Option (List Char)
  | [] => some acc.reverse
  | .char c :: rest => joinPieces? (c :: acc) rest
  | .unit high :: .unit low :: rest =>
    if 0xD800 ≤ high ∧ high < 0xDC00 then
      if 0xDC00 ≤ low ∧ low < 0xE000 then
        joinPieces? (Char.ofNat (0x10000 + (high - 0xD800) * 0x400 + (low - 0xDC00)) :: acc) rest
      else none
    else if 0xDC00 ≤ high ∧ high < 0xE000 then none
    else joinPieces? (Char.ofNat high :: acc) (.unit low :: rest)
  | .unit n :: rest =>
    if 0xD800 ≤ n ∧ n < 0xE000 then none else joinPieces? (Char.ofNat n :: acc) rest

/-- The decimal digits in front, and the rest. -/
def spanDigits (cs : List Char) : List Char × List Char := cs.span Char.isDigit

/-- The written parts of a number. -/
structure NumberParts where
  negative : Bool
  whole : List Char
  /-- The digits behind the point, if there is one. -/
  fraction : Option (List Char)
  exponent : Option Int
deriving DecidableEq, Repr

def exponent? (cs : List Char) : Option (Option Int × List Char) :=
  match cs with
  | c :: rest =>
    if c = 'e' ∨ c = 'E' then
      let (negative, rest) := match rest with
        | '+' :: rest => (false, rest)
        | '-' :: rest => (true, rest)
        | rest => (false, rest)
      let (digits, rest) := spanDigits rest
      if digits.isEmpty then none
      else
        let n : Int := Text.digitsValue digits
        some (some (if negative then -n else n), rest)
    else some (none, cs)
  | [] => some (none, [])

def fraction? (cs : List Char) : Option (Option (List Char) × List Char) :=
  match cs with
  | '.' :: rest =>
    let (digits, rest) := spanDigits rest
    if digits.isEmpty then none else some (some digits, rest)
  | cs => some (none, cs)

/-- A number in front of the text: no superfluous zero, digits on both sides of a point. -/
def numberParts? (cs : List Char) : Option (NumberParts × List Char) := do
  let (negative, cs) := match cs with
    | '-' :: rest => (true, rest)
    | cs => (false, cs)
  let (whole, cs) := spanDigits cs
  match whole with
  | [] => none
  | '0' :: _ :: _ => none
  | _ =>
    let (fraction, cs) ← fraction? cs
    let (exponent, cs) ← exponent? cs
    return (⟨negative, whole, fraction, exponent⟩, cs)

/-- The significand that digits build up before it would pass 64 bits, and the digits left. -/
def significand (acc : Nat) : List Char → Nat × List Char
  | [] => (acc, [])
  | c :: cs =>
    let next := acc * 10 + (c.toNat - '0'.toNat)
    if Nat.pow 2 64 ≤ next then (acc, c :: cs) else significand next cs

/-- An integer that fits stays one; every other number keeps the digits of a 64-bit significand. -/
def NumberParts.value? (p : NumberParts) : Option Number :=
  let (whole, dropped) := significand 0 p.whole
  let integer : Option Int :=
    if p.fraction.isSome ∨ p.exponent.isSome ∨ !dropped.isEmpty then none
    else if p.negative then
      if whole = 0 ∨ Nat.pow 2 63 < whole then none else some (-(whole : Int))
    else some whole
  match integer with
  | some n => some (.int n)
  | none =>
    let fraction := p.fraction.getD []
    let (digits, left) := significand whole fraction
    let places : Int := fraction.length - left.length
    let exponent : Int := dropped.length - places + p.exponent.getD 0
    (Binary64.ofParts? digits exponent).map fun x => .float { x with negative := p.negative }

/-- The token in front of the text, and the rest. -/
def token? (cs : List Char) : Option (Token × List Char) :=
  match cs with
  | '[' :: rest => some (.openArray, rest)
  | ']' :: rest => some (.closeArray, rest)
  | '\x7b' :: rest => some (.openObject, rest)
  | '\x7d' :: rest => some (.closeObject, rest)
  | ':' :: rest => some (.colon, rest)
  | ',' :: rest => some (.comma, rest)
  | 'n' :: 'u' :: 'l' :: 'l' :: rest => some (.null, rest)
  | 't' :: 'r' :: 'u' :: 'e' :: rest => some (.bool true, rest)
  | 'f' :: 'a' :: 'l' :: 's' :: 'e' :: rest => some (.bool false, rest)
  | '"' :: rest =>
    (stringPieces? [] rest).map fun (pieces, rest) =>
      (.string ((joinPieces? [] pieces).map String.ofList), rest)
  | cs => (numberParts? cs).map fun (parts, rest) => (.number parts.value?, rest)

/-- The characters that may stand between tokens. -/
def isSpace (c : Char) : Bool := c == ' ' || c == '\n' || c == '\t' || c == '\r'

/-- At most `fuel` tokens of the text, behind those in `acc`. Every token takes a character, so the
length of the text is enough. -/
def tokensFrom? (acc : List Token) : Nat → List Char → Option (List Token)
  | 0, cs => if (cs.dropWhile isSpace).isEmpty then some acc.reverse else none
  | fuel + 1, cs =>
    match cs.dropWhile isSpace with
    | [] => some acc.reverse
    | c :: cs =>
      match token? (c :: cs) with
      | some (token, rest) => tokensFrom? (token :: acc) fuel rest
      | none => none

def tokens? (s : String) : Option (List Token) := tokensFrom? [] s.toList.length s.toList

end SchemaTypes.Json
