import SchemaTypes.Number.Decimal

/-! JSON values and their compact text. -/
namespace SchemaTypes

/-- A number: an integer of at most 64 bits, or a floating-point number. -/
inductive Number where
  | int (value : Int)
  | float (value : Binary64)
deriving DecidableEq, Repr

namespace Number

/-- Puts `digits` behind a point that stands `places` digits from their left end. -/
def withPoint (digits : List Char) (places : Int) : List Char :=
  if places ≤ 0 then '0' :: '.' :: (List.replicate places.natAbs '0' ++ digits)
  else
    let n := places.natAbs
    let whole := digits.take n ++ List.replicate (n - digits.length) '0'
    let fraction := digits.drop n
    whole ++ '.' :: (if fraction.isEmpty then ['0'] else fraction)

/-- Shortest digits; positional for a decimal exponent from -5 to 15, with an exponent otherwise. -/
def floatText (x : Binary64) : String :=
  let sign := if x.negative then "-" else ""
  if x.isZero then sign ++ "0.0"
  else
    let (n, g) := x.shortest
    let digits := Nat.toDigits 10 n
    let e : Int := g + digits.length - 1
    if -5 ≤ e ∧ e < 16 then sign ++ String.ofList (withPoint digits (e + 1))
    else
      let mantissa := match digits with
        | [] => []
        | [d] => [d]
        | d :: rest => d :: '.' :: rest
      let mark := if e < 0 then "e-" else "e+"
      sign ++ String.ofList mantissa ++ mark ++ toString e.natAbs

def text : Number → String
  | .int value => toString value
  | .float value => floatText value

end Number

/-- A JSON value. The members of an object are sorted by name, and no name occurs twice. -/
inductive Json where
  | null
  | bool (value : Bool)
  | number (value : Number)
  | string (value : String)
  | array (items : List Json)
  | object (members : List (String × Json))
deriving Repr

namespace Json

/-- The two hexadecimal digits of a number below 256. -/
def hexByte (n : Nat) : List Char := [Nat.digitChar (n / 16), Nat.digitChar (n % 16)]

/-- What stands between double quotes for a character. -/
def escapeChar (c : Char) : List Char :=
  match c with
  | '"' => ['\\', '"']
  | '\\' => ['\\', '\\']
  | '\u0008' => ['\\', 'b']
  | '\u000c' => ['\\', 'f']
  | '\n' => ['\\', 'n']
  | '\r' => ['\\', 'r']
  | '\t' => ['\\', 't']
  | c => if c.toNat < 0x20 then '\\' :: 'u' :: '0' :: '0' :: hexByte c.toNat else [c]

def escape (s : String) : String := String.ofList (s.toList.flatMap escapeChar)

/-- A string with its double quotes. -/
def quote (s : String) : String := "\"" ++ escape s ++ "\""

mutual
/-- The text without any blank. -/
def text : Json → String
  | .null => "null"
  | .bool value => if value then "true" else "false"
  | .number value => value.text
  | .string value => quote value
  | .array items => "[" ++ itemsText items ++ "]"
  | .object members => "\x7b" ++ membersText members ++ "\x7d"

def itemsText : List Json → String
  | [] => ""
  | [item] => text item
  | item :: next :: rest => text item ++ "," ++ itemsText (next :: rest)

def membersText : List (String × Json) → String
  | [] => ""
  | [(name, value)] => quote name ++ ":" ++ text value
  | (name, value) :: next :: rest =>
    quote name ++ ":" ++ text value ++ "," ++ membersText (next :: rest)
end

/-- Gives `name` the value among members sorted by name. -/
def putSorted (name : String) (value : Json) : List (String × Json) → List (String × Json)
  | [] => [(name, value)]
  | (other, old) :: rest =>
    if name = other then (name, value) :: rest
    else if name < other then (name, value) :: (other, old) :: rest
    else (other, old) :: putSorted name value rest

/-- The object with these members; of a repeated name the last value counts. -/
def ofMembers (members : List (String × Json)) : Json :=
  .object (members.foldl (fun acc member => putSorted member.1 member.2 acc) [])

end Json
end SchemaTypes
