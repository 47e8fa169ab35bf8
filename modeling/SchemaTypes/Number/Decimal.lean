import SchemaTypes.Number.Binary64

/-! Decimal digits to floating-point numbers and back. -/
namespace SchemaTypes.Binary64

/-- `digits * 10 ^ exponent` as a numerator and a denominator. -/
def decimalRatio (digits : Nat) (exponent : Int) : Nat × Nat :=
  if exponent < 0 then (digits, Nat.pow 10 exponent.natAbs)
  else (digits * Nat.pow 10 exponent.natAbs, 1)

def countDigits (n : Nat) : Nat := (Nat.toDigits 10 n).length

/-- The number nearest to `digits * 10 ^ exponent`, or `none` beyond the largest. Exponents far
outside the range are settled without computing the power. -/
def ofDecimal? (negative : Bool) (digits : Nat) (exponent : Int) : Option Binary64 :=
  let magnitude := exponent + countDigits digits
  if digits = 0 ∨ magnitude < -400 then some (zero negative)
  else if 400 < magnitude then none
  else
    let (num, den) := decimalRatio digits exponent
    ofRatio? negative num den

/-- The power of ten that a product or quotient is taken with. -/
def tenPower (k : Nat) : Binary64 := (ofRatio? false (Nat.pow 10 k) 1).getD (zero false)

/-- Divides by `10 ^ 308` until the rest of the power is one that has a number of its own. -/
def divTenPower (x : Binary64) : Nat → Nat → Binary64
  | 0, _ => x
  | steps + 1, k =>
    if k ≤ 308 then (x.div? (tenPower k)).getD x
    else if x.isZero then x
    else divTenPower ((x.div? (tenPower 308)).getD x) steps (k - 308)

/-- `significand * 10 ^ exponent` by one product or quotient of rounded numbers. The result can
differ in the last bit from the number nearest to the exact value. -/
def ofParts? (significand : Nat) (exponent : Int) : Option Binary64 := do
  let x ← ofRatio? false significand 1
  if exponent < 0 then return divTenPower x (exponent.natAbs / 308 + 1) exponent.natAbs
  else if exponent ≤ 308 then x.mul? (tenPower exponent.natAbs)
  else if x.isZero then return x
  else none

/-- The magnitudes halfway to the two neighbours, over the common denominator `2 ^ shift`. -/
def interval (x : Binary64) : Nat × Nat × Int :=
  let low := if x.mantissa = Nat.pow 2 52 ∧ minExponent < x.exponent then 4 * x.mantissa - 1
    else 4 * x.mantissa - 2
  (low, 4 * x.mantissa + 2, x.exponent - 2)

/-- `digits * 10 ^ g`, compared with `n * 2 ^ e`. -/
def compareDecimal (digits : Nat) (g : Int) (n : Nat) (e : Int) : Ordering :=
  let (a, b) := decimalRatio digits g
  let (c, d) := if e < 0 then (n, Nat.pow 2 e.natAbs) else (n * Nat.pow 2 e.natAbs, 1)
  compare (a * d) (c * b)

/-- Whether `digits * 10 ^ g` reads back as `x`: halves go to the even mantissa. -/
def readsBack (x : Binary64) (digits : Nat) (g : Int) : Bool :=
  let (low, high, e) := x.interval
  let even := x.mantissa % 2 == 0
  let lowest := compareDecimal digits g low e
  let highest := compareDecimal digits g high e
  (lowest == .gt || (even && lowest == .eq)) && (highest == .lt || (even && highest == .eq))

/-- The greatest `k` with `10 ^ k ≤ x`, for an `x` that is not zero. -/
def log10 (x : Binary64) : Int :=
  let guess := ((x.mantissa.log2 : Int) + x.exponent) * 30103 / 100000
  let isLess := fun k => compareDecimal 1 k x.mantissa x.exponent == .gt
  if isLess guess then guess - 1 else if isLess (guess + 1) then guess else guess + 1

/-- The best number of the grid of multiples of `10 ^ g` that reads back as `x`. -/
def onGrid? (x : Binary64) (g : Int) : Option Nat :=
  let (n, d) := x.ratio
  let (a, b) := decimalRatio 1 g
  let down := n * b / (d * a)
  let nearest := roundDiv (n * b) (d * a)
  if x.readsBack nearest g then some nearest
  else if x.readsBack down g then some down
  else if x.readsBack (down + 1) g then some (down + 1)
  else none

/-- The first grid from `10 ^ g` on, each ten times finer than the one before, with a number that
reads back. -/
def shortestFrom (x : Binary64) : Nat → Int → Nat × Int
  | 0, g => (x.mantissa, g)
  | steps + 1, g =>
    match x.onGrid? g with
    | some digits => (digits, g)
    | none => shortestFrom x steps (g - 1)

/-- Moves the zeros at the end of the digits into the exponent. -/
def stripZeros : Nat → Nat → Int → Nat × Int
  | 0, digits, g => (digits, g)
  | steps + 1, digits, g =>
    if digits ≠ 0 ∧ digits % 10 = 0 then stripZeros steps (digits / 10) (g + 1) else (digits, g)

/-- The fewest digits, and the power of ten they count, that read back as `x`. -/
def shortest (x : Binary64) : Nat × Int :=
  let (digits, g) := x.shortestFrom 17 x.log10
  stripZeros 18 digits g

end SchemaTypes.Binary64
