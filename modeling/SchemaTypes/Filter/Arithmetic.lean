import SchemaTypes.Assoc
import SchemaTypes.Filter.Script
import SchemaTypes.Text

/-! Arithmetic of scripts, on integers of 64 bits. -/
namespace SchemaTypes.Filter

/-- An arithmetic expression. -/
inductive Sum where
  | number (value : Int)
  | named (name : String)
  | unary (operator : Char) (operand : Sum)
  | binary (operator : String) (first second : Sum)
  | choice (condition yes no : Sum)
  /-- Gives a variable a value, or combines the value with the old one. -/
  | assign (name : String) (operator : Option String) (value : Sum)
deriving Repr

/-- Why there is no value. -/
inductive SumError where
  | expecting (what : String)
  | divisionByZero
  /-- The value of a variable is no number. -/
  | notNumber (text : String)
deriving DecidableEq, Repr

def SumError.message (expression : String) : SumError → String
  | .expecting what => "arithmetic expression: expecting " ++ what ++ ": \"" ++ expression ++ "\""
  | .divisionByZero => "arithmetic expression: division by zero: \"" ++ expression ++ "\""
  | .notNumber text => "Illegal number: " ++ text

namespace Sum

def isBlank (c : Char) : Bool := c == ' ' || c == '\t' || c == '\n'

def skipBlanks (cs : List Char) : List Char := cs.dropWhile isBlank

/-- Wraps around at 64 bits. -/
def wrap (n : Int) : Int := Int.bmod n 18446744073709551616

/-- The number of 64 bits that is nearest. -/
def clamp (n : Int) : Int := max (-9223372036854775808) (min 9223372036854775807 n)

/-- A number in front of the text: decimal, octal behind a zero, hexadecimal behind `0x`. -/
def numeral (cs : List Char) : Nat × List Char :=
  let digits (radix : Nat) (cs : List Char) : Nat × List Char :=
    let isDigit (c : Char) : Bool := (Text.hexDigit? c).any (· < radix)
    ((cs.takeWhile isDigit).foldl (fun n c => n * radix + (Text.hexDigit? c).getD 0) 0,
      cs.dropWhile isDigit)
  match cs with
  | '0' :: x :: d :: rest =>
    if (x = 'x' ∨ x = 'X') ∧ (Text.hexDigit? d).isSome then digits 16 (d :: rest)
    else digits 8 cs
  | '0' :: _ => digits 8 cs
  | _ => digits 10 cs

/-- The binary operators, those that bind least first. -/
def levels : List (List String) :=
  [["||"], ["&&"], ["|"], ["^"], ["&"], ["==", "!="], ["<=", ">=", "<", ">"], ["<<", ">>"],
    ["+", "-"], ["*", "/", "%"]]

def operators : List String :=
  ["<<=", ">>=", "||", "&&", "==", "!=", "<=", ">=", "<<", ">>", "+=", "-=", "*=", "/=", "%=",
    "&=", "^=", "|=", "|", "^", "&", "<", ">", "+", "-", "*", "/", "%", "=", "?", ":", "(", ")",
    "~", "!"]

/-- The longest operator in front of the text. -/
def operator? (cs : List Char) : Option (String × List Char) :=
  (operators.find? fun o => o.toList.isPrefixOf cs).map fun o => (o, cs.drop o.length)

/-- The operator that an assignment combines with, `some none` for a plain one. -/
def assignment? (operator : String) : Option (Option String) :=
  if operator = "=" then some none
  else if ["<<=", ">>=", "+=", "-=", "*=", "/=", "%=", "&=", "^=", "|="].contains operator then
    some (some (String.ofList operator.toList.dropLast))
  else none

mutual

/-- An expression in front of the text. -/
def expression : Nat → List Char → Except SumError (Sum × List Char)
  | 0, _ => .error (.expecting "primary")
  | fuel + 1, cs => do
    let start := skipBlanks cs
    let name := if start.head?.any isNameStart then start.takeWhile isNameChar else []
    let target := if name.isEmpty then none else do
      let (operator, rest) ← operator? (skipBlanks (start.drop name.length))
      return (← assignment? operator, rest)
    match target with
    | some (operator, rest) =>
      let (value, rest) ← expression fuel rest
      return (.assign (String.ofList name) operator value, rest)
    | none =>
      let (condition, rest) ← level fuel levels cs
      match operator? (skipBlanks rest) with
      | some ("?", rest) =>
        let (yes, rest) ← expression fuel rest
        match operator? (skipBlanks rest) with
        | some (":", rest) =>
          let (no, rest) ← expression fuel rest
          return (.choice condition yes no, rest)
        | _ => throw (.expecting "':'")
      | _ => return (condition, rest)

/-- Operands joined by the operators of the first level, from left to right. -/
def level : Nat → List (List String) → List Char → Except SumError (Sum × List Char)
  | 0, _, _ => .error (.expecting "primary")
  | fuel + 1, [], cs => operand fuel cs
  | fuel + 1, operators :: deeper, cs => do
    let (first, rest) ← level fuel deeper cs
    levelFrom fuel first operators deeper rest

def levelFrom : Nat → Sum → List String → List (List String) → List Char →
    Except SumError (Sum × List Char)
  | 0, first, _, _, cs => .ok (first, cs)
  | fuel + 1, first, operators, deeper, cs =>
    match operator? (skipBlanks cs) with
    | some (operator, rest) =>
      if operators.contains operator then do
        let (second, rest) ← level fuel deeper rest
        levelFrom fuel (.binary operator first second) operators deeper rest
      else .ok (first, cs)
    | none => .ok (first, cs)

def operand : Nat → List Char → Except SumError (Sum × List Char)
  | 0, _ => .error (.expecting "primary")
  | fuel + 1, cs =>
    match skipBlanks cs with
    | '(' :: rest => do
      let (inner, rest) ← expression fuel rest
      match skipBlanks rest with
      | ')' :: rest => return (inner, rest)
      | _ => throw (.expecting "')'")
    | c :: rest =>
      if c = '+' ∨ c = '-' ∨ c = '!' ∨ c = '~' then do
        let (inner, rest) ← operand fuel rest
        return (.unary c inner, rest)
      else if c.isDigit then
        let (value, rest) := numeral (c :: rest)
        .ok (.number value, rest)
      else if isNameStart c then
        .ok (.named (String.ofList ((c :: rest).takeWhile isNameChar)),
          (c :: rest).dropWhile isNameChar)
      else .error (.expecting "primary")
    | [] => .error (.expecting "primary")

end

/-- The expression that is the whole of a text. -/
def ofText (text : String) : Except SumError Sum := do
  let cs := text.toList
  let (sum, rest) ← expression (32 * (cs.length + 1)) cs
  if (skipBlanks rest).isEmpty then return sum else throw (.expecting "EOF")

def ofBool (b : Bool) : Int := if b then 1 else 0

/-- A bitwise operation on numbers as unsigned ones. -/
def bitwise (operation : UInt64 → UInt64 → UInt64) (a b : Int) : Int :=
  let word (n : Int) : UInt64 := (n.emod 18446744073709551616).toNat.toUInt64
  wrap (operation (word a) (word b)).toNat

/-- The value of a binary operator. -/
def apply (operator : String) (a b : Int) : Except SumError Int :=
  match operator with
  | "+" => .ok (wrap (a + b))
  | "-" => .ok (wrap (a - b))
  | "*" => .ok (wrap (a * b))
  | "/" => if b = 0 then .error .divisionByZero else .ok (wrap (Int.tdiv a b))
  | "%" => if b = 0 then .error .divisionByZero else .ok (Int.tmod a b)
  | "<<" => .ok (wrap (a * Nat.pow 2 (b.emod 64).toNat))
  | ">>" => .ok (Int.fdiv a (Nat.pow 2 (b.emod 64).toNat))
  | "<" => .ok (ofBool (a < b))
  | "<=" => .ok (ofBool (a ≤ b))
  | ">" => .ok (ofBool (b < a))
  | ">=" => .ok (ofBool (b ≤ a))
  | "==" => .ok (ofBool (a == b))
  | "!=" => .ok (ofBool (a != b))
  | "&" => .ok (bitwise (· &&& ·) a b)
  | "^" => .ok (bitwise (· ^^^ ·) a b)
  | "|" => .ok (bitwise (· ||| ·) a b)
  | _ => .error (.expecting "primary")

/-- The value that a text has as a number; an empty one is zero. -/
def valueOf (text : String) : Except SumError Int :=
  let cs := skipBlanks text.toList
  let digits := match cs with
    | '-' :: rest | '+' :: rest => rest
    | cs => cs
  let (value, rest) := numeral digits
  if cs.isEmpty then .ok 0
  else if digits.head?.any Char.isDigit && (skipBlanks rest).isEmpty then
    .ok (clamp (if cs.head? = some '-' then -(value : Int) else value))
  else .error (.notNumber text)

/-- The value of an expression, and the bindings that it leaves. -/
def evaluate : Sum → List (String × String) → Except SumError (Int × List (String × String))
  | .number value, bindings => .ok (clamp value, bindings)
  | .named name, bindings => do
    return (← valueOf ((Assoc.find? name bindings).getD ""), bindings)
  | .unary operator operand, bindings => do
    let (value, bindings) ← evaluate operand bindings
    let value := match operator with
      | '-' => wrap (-value)
      | '!' => ofBool (value == 0)
      | '~' => -value - 1
      | _ => value
    return (value, bindings)
  | .binary operator first second, bindings => do
    let (a, bindings) ← evaluate first bindings
    if operator = "&&" ∧ a = 0 then return (0, bindings)
    if operator = "||" ∧ a ≠ 0 then return (1, bindings)
    let (b, bindings) ← evaluate second bindings
    if operator = "&&" ∨ operator = "||" then return (ofBool (b != 0), bindings)
    return (← apply operator a b, bindings)
  | .choice condition yes no, bindings => do
    let (value, bindings) ← evaluate condition bindings
    if value ≠ 0 then evaluate yes bindings else evaluate no bindings
  | .assign name operator value, bindings => do
    let (value, bindings) ← evaluate value bindings
    let value ← match operator with
      | none => pure value
      | some operator => do apply operator (← valueOf ((Assoc.find? name bindings).getD "")) value
    return (value, Assoc.put name (toString value) bindings)

end Sum
end SchemaTypes.Filter
