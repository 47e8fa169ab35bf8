import SchemaTypes.Disk
import SchemaTypes.Text

/-! Conditions on texts, numbers and files, as the shell's `test` reads them. -/
namespace SchemaTypes.Filter.Condition

/-- What an argument is where it stands. -/
inductive Sign where
  | finish
  | operand
  | unary
  | binary
  | negation
  | both
  | either
  | opening
  | closing
deriving DecidableEq, Repr

def unaryOperators : List String :=
  ["-r", "-w", "-x", "-e", "-f", "-d", "-c", "-b", "-p", "-u", "-g", "-k", "-s", "-t", "-z", "-n",
    "-h", "-O", "-G", "-L", "-S"]

def binaryOperators : List String :=
  ["=", "!=", "<", ">", "-eq", "-ne", "-ge", "-gt", "-le", "-lt", "-nt", "-ot", "-ef"]

/-- The sign in front. An operator that has nothing to work on is an operand. -/
def sign (args : List String) : Sign :=
  match args with
  | [] => .finish
  | arg :: rest =>
    if unaryOperators.contains arg then
      match rest with
      | [] => .operand
      | [_] => .unary
      | next :: _ :: _ => if binaryOperators.contains next then .operand else .unary
    else if binaryOperators.contains arg then .binary
    else if arg = "!" then .negation
    else if arg = "-a" then .both
    else if arg = "-o" then .either
    else if arg = "(" then if rest.isEmpty then .operand else .opening
    else if arg = ")" then .closing
    else .operand

/-- The largest number that is understood. -/
def largest : Int := 9223372036854775807

/-- The number that a text spells; blanks may stand around it. -/
def number? (text : String) : Option Int :=
  let isBlank (c : Char) : Bool := c == ' ' || ('\t' ≤ c ∧ c ≤ '\r')
  let cs := text.toList.dropWhile isBlank
  let (negative, cs) := match cs with
    | '-' :: rest => (true, rest)
    | '+' :: rest => (false, rest)
    | cs => (false, cs)
  let digits := cs.takeWhile Char.isDigit
  let size : Int := Text.digitsValue digits
  let value := if negative then -size else size
  if digits.isEmpty || !(cs.drop digits.length).all isBlank then none
  else if -largest - 1 ≤ value ∧ value ≤ largest then some value
  else none

def number (text : String) : Except String Int :=
  match number? text with
  | some n => .ok n
  | none => .error ("Illegal number: " ++ text)

/-- Looks for a file or a directory. -/
abbrev Finder := String → Option Entry

def unary (find : Finder) (operator arg : String) : Except String Bool :=
  match operator with
  | "-z" => .ok (arg == "")
  | "-n" => .ok (arg != "")
  | "-t" => do
    let _ ← number arg
    return false
  | "-e" | "-r" | "-w" | "-O" | "-G" => .ok (find arg).isSome
  | "-f" => .ok ((find arg).any fun entry => entry matches .file _)
  | "-d" | "-x" => .ok ((find arg).any fun entry => entry matches .directory)
  | "-s" => .ok ((find arg).any fun entry => match entry with
      | .file content => !content.isEmpty
      | .directory => true)
  | _ => .ok false

def binary (find : Finder) (operator first second : String) : Except String Bool := do
  match operator with
  | "=" => return first == second
  | "!=" => return first != second
  | "<" => return first < second
  | ">" => return second < first
  | "-eq" => return (← number first) == (← number second)
  | "-ne" => return (← number first) != (← number second)
  | "-lt" => return (← number first) < (← number second)
  | "-le" => return (← number first) ≤ (← number second)
  | "-gt" => return (← number second) < (← number first)
  | "-ge" => return (← number second) ≤ (← number first)
  | "-ef" => return first == second && (find first).isSome
  | _ => return false

/-! A part of a condition is read from the arguments that begin with it, which is of the sign that
is given. The arguments that are left begin with the last one of the part. -/

mutual

def anyOf (find : Finder) : Nat → Sign → List String → Except String (Bool × List String)
  | 0, _, args => .ok (false, args)
  | fuel + 1, kind, args => do
    let (first, args) ← allOf find fuel kind args
    if sign args.tail = .either then
      let (more, args) ← anyOf find fuel (sign (args.drop 2)) (args.drop 2)
      return (first || more, args)
    else return (first, args)

def allOf (find : Finder) : Nat → Sign → List String → Except String (Bool × List String)
  | 0, _, args => .ok (false, args)
  | fuel + 1, kind, args => do
    let (first, args) ← negated find fuel kind args
    if sign args.tail = .both then
      let (more, args) ← allOf find fuel (sign (args.drop 2)) (args.drop 2)
      return (first && more, args)
    else return (first, args)

def negated (find : Finder) : Nat → Sign → List String → Except String (Bool × List String)
  | 0, _, args => .ok (false, args)
  | fuel + 1, kind, args => do
    if kind = .negation then
      let next := sign args.tail
      let (holds, args) ← negated find fuel next (if next = .finish then args else args.tail)
      return (!holds, args)
    else single find fuel kind args

def single (find : Finder) : Nat → Sign → List String → Except String (Bool × List String)
  | 0, _, args => .ok (false, args)
  | fuel + 1, kind, args => do
    match kind, args with
    | _, [] => return (false, [])
    | .finish, args => return (false, args)
    | .opening, _ :: rest =>
      if sign rest = .closing then return (false, rest)
      else
        let (holds, rest) ← anyOf find fuel (sign rest) rest
        if sign rest.tail = .closing then return (holds, rest.tail)
        else throw "closing paren expected"
    | .unary, operator :: rest =>
      match rest with
      | [] => throw (operator ++ ": argument expected")
      | arg :: _ => return (← unary find operator arg, rest)
    | _, first :: rest =>
      if sign rest = .binary then
        match rest with
        | operator :: second :: after =>
          return (← binary find operator first second, second :: after)
        | operator :: [] => throw (operator ++ ": argument expected")
        | [] => return (first != "", args)
      else return (first != "", args)

end

/-- Whether arguments that are all one condition hold. -/
def whole (find : Finder) (kind : Sign) (args : List String) : Except String Bool := do
  let (holds, rest) ← anyOf find (4 * args.length + 4) kind args
  match rest with
  | arg :: _ :: _ => throw ((if arg = "" then "" else arg ++ ": ") ++ "unexpected operator")
  | _ => return holds

/-- Whether a condition holds. Up to four arguments are read by their number first. -/
def holds (find : Finder) (args : List String) : Except String Bool :=
  match args with
  | [] => .ok false
  | [first, operator, second] =>
    if binaryOperators.contains operator then whole find .operand args
    else if first = "(" ∧ second = ")" then whole find (sign [operator]) [operator]
    else if first = "!" then do return !(← whole find (sign args.tail) args.tail)
    else whole find (sign args) args
  | [first, a, b, last] =>
    if first = "(" ∧ last = ")" then whole find (sign [a, b]) [a, b]
    else if first = "!" then do return !(← holds find [a, b, last])
    else whole find (sign args) args
  | args => whole find (sign args) args
termination_by args.length

end SchemaTypes.Filter.Condition
