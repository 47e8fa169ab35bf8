import SchemaTypes.Filter.ByteSet

/-! Patterns for words of a script. -/
namespace SchemaTypes.Filter

/-- A part of a pattern. -/
inductive Glob where
  | char (c : Char)
  /-- Any one character. -/
  | one
  /-- Any characters. -/
  | many
  /-- One character in one of the ranges, or in none of them. -/
  | among (outside : Bool) (ranges : List (Char × Char))
deriving DecidableEq, Repr

abbrev Pattern := List Glob

namespace Pattern

/-- The ranges of a class in front of the text, between `[:` and `:]`. -/
def class? : List Char → Option (List (Char × Char) × List Char)
  | '[' :: ':' :: rest => do
    let name := rest.takeWhile Char.isAlpha
    let bytes ← ByteSet.classBytes? (String.ofList name)
    match rest.drop name.length with
    | ':' :: ']' :: rest =>
      return (bytes.map fun b => (Char.ofNat b.toNat, Char.ofNat b.toNat), rest)
    | _ => none
  | _ => none

/-- The ranges up to a closing bracket, which may come first as a character of its own. -/
def ranges (first : Bool) : Nat → List Char → Option (List (Char × Char) × List Char)
  | 0, _ | _, [] => none
  | fuel + 1, a :: rest =>
    let push (front : List (Char × Char)) (rest : List Char) :
        Option (List (Char × Char) × List Char) :=
      (ranges false fuel rest).map fun (more, rest) => (front ++ more, rest)
    if a = ']' ∧ !first then some ([], rest)
    else
      match class? (a :: rest), rest with
      | some (members, rest), _ => push members rest
      | none, '-' :: b :: after => if b = ']' then push [(a, a)] rest else push [(a, b)] after
      | none, rest => push [(a, a)] rest

/-- Reads a pattern, with enough fuel for its characters. -/
def ofMarkedFrom : Nat → List (Char × Bool) → Pattern
  | 0, _ | _, [] => []
  | fuel + 1, (c, quoted) :: rest =>
    if quoted then .char c :: ofMarkedFrom fuel rest
    else if c = '?' then .one :: ofMarkedFrom fuel rest
    else if c = '*' then .many :: ofMarkedFrom fuel rest
    else if c = '[' then
      let cs := rest.map (·.1)
      let outside := cs.head? == some '!' || cs.head? == some '^'
      match ranges true (cs.length + 1) (if outside then cs.drop 1 else cs) with
      | some (ranges, after) =>
        .among outside ranges :: ofMarkedFrom fuel (rest.drop (cs.length - after.length))
      | none => .char c :: ofMarkedFrom fuel rest
    else .char c :: ofMarkedFrom fuel rest

/-- A pattern from characters that are marked as quoted or not. A quoted one stands for itself. -/
def ofMarked (marked : List (Char × Bool)) : Pattern := ofMarkedFrom marked.length marked

/-- Whether a pattern fits a whole text. -/
def fits : Pattern → List Char → Bool
  | [], cs => cs.isEmpty
  | .many :: globs, [] => fits globs []
  | .many :: globs, c :: cs => fits globs (c :: cs) || fits (.many :: globs) cs
  | _ :: _, [] => false
  | .char d :: globs, c :: cs => d == c && fits globs cs
  | .one :: globs, _ :: cs => fits globs cs
  | .among outside ranges :: globs, c :: cs =>
    (ranges.any fun (a, b) => a ≤ c ∧ c ≤ b) != outside && fits globs cs
termination_by globs cs => globs.length + cs.length

/-- The text without its shortest or longest front that the pattern fits. -/
def cutFront (pattern : Pattern) (longest : Bool) (cs : List Char) : List Char :=
  let counts := List.range (cs.length + 1)
  match (if longest then counts.reverse else counts).find? fun n => fits pattern (cs.take n) with
  | some n => cs.drop n
  | none => cs

/-- The text without its shortest or longest back that the pattern fits. -/
def cutBack (pattern : Pattern) (longest : Bool) (cs : List Char) : List Char :=
  let counts := List.range (cs.length + 1)
  match (if longest then counts else counts.reverse).find? fun n => fits pattern (cs.drop n) with
  | some n => cs.take n
  | none => cs

end Pattern
end SchemaTypes.Filter
