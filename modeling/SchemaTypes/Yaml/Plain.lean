import SchemaTypes.Item
import SchemaTypes.Yaml.Tag

/-! What scalars mean where no type is expected of them. -/
namespace SchemaTypes.Yaml

def isNullWord (s : String) : Bool := ["null", "Null", "NULL", "~"].contains s

def boolWord? (s : String) : Option Bool :=
  if ["true", "True", "TRUE"].contains s then some true
  else if ["false", "False", "FALSE"].contains s then some false
  else none

def digit? (radix : Nat) (c : Char) : Option Nat :=
  let value := if c.isDigit then c.toNat - '0'.toNat
    else if c.isLower then c.toNat - 'a'.toNat + 10
    else if c.isUpper then c.toNat - 'A'.toNat + 10
    else radix
  if value < radix then some value else none

/-- A number written with at least one digit and nothing else. -/
def natural? (radix : Nat) (cs : List Char) : Option Nat :=
  if cs.isEmpty then none
  else cs.foldlM (fun n c => (digit? radix c).map fun d => n * radix + d) 0

/-- A number with its radix marked by `0x`, `0o` or `0b`. -/
def marked? : List Char → Option Nat
  | '0' :: 'x' :: rest => natural? 16 rest
  | '0' :: 'o' :: rest => natural? 8 rest
  | '0' :: 'b' :: rest => natural? 2 rest
  | _ => none

/-- Several digits with a zero in front, behind a sign or not: text and no number. -/
def isZeroLed (cs : List Char) : Bool :=
  let cs := match cs with
    | '-' :: rest | '+' :: rest => rest
    | cs => cs
  match cs with
  | '0' :: c :: rest => (c :: rest).all Char.isDigit
  | _ => false

/-- A sign and the magnitude of an integer below `bound`, with `low` the bound for negative ones. -/
def integer? (bound low : Nat) (cs : List Char) : Option Int :=
  let magnitude? := fun (limit : Nat) (digits : List Char) =>
    let inRange := fun n : Option Nat => n.filter (· ≤ limit)
    (inRange (marked? digits)).orElse fun _ =>
      if isZeroLed cs then none else inRange (natural? 10 digits)
  match cs with
  | '-' :: digits => (magnitude? low digits).map fun n => -(n : Int)
  | '+' :: digits => (magnitude? (bound - 1) digits).map fun n => (n : Int)
  | digits => (magnitude? (bound - 1) digits).map fun n => (n : Int)

/-- Digits with a point or an exponent or both, as digits and a power of ten. -/
def decimal? (cs : List Char) : Option (Nat × Int) := do
  let (whole, cs) := cs.span Char.isDigit
  let (fraction, cs) := match cs with
    | '.' :: rest => rest.span Char.isDigit
    | cs => ([], cs)
  let digits ← natural? 10 (whole ++ fraction)
  let exponent : Int ← match cs with
    | [] => some 0
    | mark :: rest =>
      if mark = 'e' ∨ mark = 'E' then
        match rest with
        | '-' :: rest => (natural? 10 rest).map fun n => -(n : Int)
        | '+' :: rest => (natural? 10 rest).map fun n => (n : Int)
        | rest => (natural? 10 rest).map fun n => (n : Int)
      else none
  return (digits, exponent - fraction.length)

/-- A floating-point number. A magnitude beyond the largest is no number. -/
def float? (s : String) : Option Item :=
  if [".inf", ".Inf", ".INF", "+.inf", "+.Inf", "+.INF", "-.inf", "-.Inf", "-.INF", ".nan", ".NaN",
      ".NAN"].contains s then some .notFinite
  else
    let (negative, cs) := match s.toList with
      | '-' :: rest => (true, rest)
      | '+' :: rest => (false, rest)
      | cs => (false, cs)
    match decimal? cs with
    | none => none
    | some (digits, exponent) =>
      (Binary64.ofDecimal? negative digits exponent).map fun x => .number (.float x)

/-- An integer as an item: `none` if the text is none, `some none` if it has more than 64 bits but
not more than 128. -/
def integerItem? (s : String) : Option (Option Item) :=
  match integer? (Nat.pow 2 64) (Nat.pow 2 63) s.toList with
  | some n => some (some (.number (.int n)))
  | none => (integer? (Nat.pow 2 128) (Nat.pow 2 127) s.toList).map fun _ => none

/-- The meaning of a plain scalar without a tag; `none` for an integer of 65 to 128 bits. -/
def plainItem? (s : String) : Option Item :=
  if s.isEmpty || isNullWord s then some .null
  else
    match boolWord? s with
    | some value => some (.bool value)
    | none =>
      match integerItem? s with
      | some item => item
      | none =>
        if isZeroLed s.toList then some (.text s) else some ((float? s).getD (.text s))

/-- The meaning of a scalar. A tag of the standard forces its type, a type of the document's own has
no meaning. -/
def scalarItem? (tag : Option Tag) (text : String) (plain : Bool) : Option Item :=
  match tag with
  | none | some .garbled => if plain then plainItem? text else some (.text text)
  | some .own => none
  | some .bool => (boolWord? text).map .bool
  | some .int => (integerItem? text).join
  | some .float => float? text
  | some .null => if isNullWord text then some .null else none
  | some .other => some (.text text)

/-- Whether an optional value is absent: a plain scalar without a tag that is empty or a word for
null, or such a word with the tag of null. That tag on another plain scalar is an error. -/
def isAbsent? (tag : Option Tag) (text : String) (plain : Bool) : Option Bool :=
  if !plain then some false
  else
    match tag with
    | none => some (text.isEmpty || isNullWord text)
    | some .null => if isNullWord text then some true else none
    | some _ => some false

end SchemaTypes.Yaml
