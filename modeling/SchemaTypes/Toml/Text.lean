import SchemaTypes.Number.Decimal
import SchemaTypes.Text
import SchemaTypes.Toml.Value

/-! Keys, strings and scalars of TOML text. -/
namespace SchemaTypes.Toml

def isBlank (c : Char) : Bool := c == ' ' || c == '\t'

def skipBlanks (cs : List Char) : List Char := cs.dropWhile isBlank

/-- Characters that may stand in comments and strings: no control character but the tab. -/
def isText (c : Char) : Bool := c == '\t' || (0x20 ≤ c.toNat && c.toNat != 0x7F)

def isKeyChar (c : Char) : Bool := c.isAlphanum || c == '_' || c == '-'

/-- The text behind a line break, if there is one in front. -/
def newline? : List Char → Option (List Char)
  | '\n' :: rest => some rest
  | '\r' :: '\n' :: rest => some rest
  | _ => none

def skipComment (cs : List Char) : List Char :=
  match cs with
  | '#' :: rest => rest.dropWhile isText
  | cs => cs

/-- The text behind the end of a line, which blanks and a comment may come before. -/
def endLine? (cs : List Char) : Option (List Char) :=
  match skipComment (skipBlanks cs) with
  | [] => some []
  | cs => newline? cs

def codeChar? (n : Nat) (cs : List Char) : Option (Char × List Char) := do
  let (code, rest) ← Text.hexCode? 0 n cs
  if (0xD800 ≤ code ∧ code ≤ 0xDFFF) ∨ 0x10FFFF < code then none
  else return (Char.ofNat code, rest)

/-- The character that the text behind a backslash stands for. -/
def escape? : List Char → Option (Char × List Char)
  | 'b' :: rest => some ('\u0008', rest)
  | 't' :: rest => some ('\t', rest)
  | 'n' :: rest => some ('\n', rest)
  | 'f' :: rest => some ('\u000c', rest)
  | 'r' :: rest => some ('\r', rest)
  | '"' :: rest => some ('"', rest)
  | '\\' :: rest => some ('\\', rest)
  | 'u' :: rest => codeChar? 4 rest
  | 'U' :: rest => codeChar? 8 rest
  | _ => none

/-- A string of one line from behind its quote. Between double quotes there are escapes. -/
def line? (quote : Char) (acc : List Char) : Nat → List Char → Option (String × List Char)
  | 0, _ => none
  | _ + 1, [] => none
  | fuel + 1, c :: rest =>
    if c = quote then some (String.ofList acc.reverse, rest)
    else if c = '\\' ∧ quote = '"' then
      match escape? rest with
      | some (ch, rest) => line? quote (ch :: acc) fuel rest
      | none => none
    else if isText c then line? quote (c :: acc) fuel rest
    else none

/-- Passes over blanks and line breaks. -/
def skipSpace : Nat → List Char → List Char
  | 0, cs => cs
  | fuel + 1, cs =>
    match cs with
    | c :: rest =>
      if isBlank c then skipSpace fuel rest
      else
        match newline? cs with
        | some rest => skipSpace fuel rest
        | none => cs
    | [] => []

/-- A string of several lines from behind its quotes. Up to two quotes may stand in front of the
three that close it. -/
def lines? (quote : Char) (acc : List Char) : Nat → List Char → Option (String × List Char)
  | 0, _ => none
  | _ + 1, [] => none
  | fuel + 1, c :: rest =>
    if c = quote then
      let quotes := 1 + (rest.takeWhile (· == quote)).length
      if quotes < 3 then lines? quote (c :: acc) fuel rest
      else
        let content := min (quotes - 3) 2
        some (String.ofList (acc.reverse ++ List.replicate content quote), rest.drop (content + 2))
    else if c = '\\' ∧ quote = '"' then
      match newline? (skipBlanks rest) with
      | some rest => lines? quote acc fuel (skipSpace (rest.length + 1) rest)
      | none =>
        match escape? rest with
        | some (ch, rest) => lines? quote (ch :: acc) fuel rest
        | none => none
    else
      match newline? (c :: rest) with
      | some rest => lines? quote ('\n' :: acc) fuel rest
      | none => if isText c then lines? quote (c :: acc) fuel rest else none

/-- A string of any of the four kinds. -/
def string? (cs : List Char) : Option (String × List Char) :=
  let several := fun (quote : Char) (rest : List Char) =>
    let rest := (newline? rest).getD rest
    lines? quote [] (rest.length + 1) rest
  match cs with
  | '"' :: '"' :: '"' :: rest => several '"' rest
  | '\'' :: '\'' :: '\'' :: rest => several '\'' rest
  | '"' :: rest => line? '"' [] (rest.length + 1) rest
  | '\'' :: rest => line? '\'' [] (rest.length + 1) rest
  | _ => none

/-- One part of a key: a bare word or a string of one line. -/
def keyPart? (cs : List Char) : Option (String × List Char) :=
  match cs with
  | '"' :: rest => line? '"' [] (rest.length + 1) rest
  | '\'' :: rest => line? '\'' [] (rest.length + 1) rest
  | cs =>
    let word := cs.takeWhile isKeyChar
    if word.isEmpty then none else some (String.ofList word, cs.drop word.length)

/-- The parts of a key, with dots and blanks between them, behind those in `acc`. -/
def keyParts? (acc : List String) : Nat → List Char → Option (List String × List Char)
  | 0, _ => none
  | fuel + 1, cs => do
    let (part, rest) ← keyPart? (skipBlanks cs)
    match skipBlanks rest with
    | '.' :: rest => keyParts? (part :: acc) fuel rest
    | rest => return ((part :: acc).reverse, rest)

/-- How many brackets may be open inside one another, and how many parts a key may have. -/
def maxDepth : Nat := 79

def key? (cs : List Char) : Option (List String × List Char) :=
  (keyParts? [] (cs.length + 1) cs).filter fun (parts, _) => parts.length ≤ maxDepth

/-- Digits of a radix, with single underscores between digits. -/
def isDigits (isDigit : Char → Bool) : List Char → Bool
  | [] => false
  | [c] => isDigit c
  | c :: '_' :: rest => isDigit c && isDigits isDigit rest
  | c :: rest => isDigit c && isDigits isDigit rest

def isDecimal (cs : List Char) : Bool := isDigits Char.isDigit cs

def dropSign (cs : List Char) : List Char :=
  match cs with
  | '+' :: rest | '-' :: rest => rest
  | cs => cs

/-- A decimal integer without a sign: no zero in front of other digits. -/
def isWhole (cs : List Char) : Bool :=
  isDecimal cs && (cs.length == 1 || cs.head? != some '0')

/-- The largest integer. The least one is one further from zero. -/
def maxInteger : Nat := 9223372036854775807

/-- The number that digits spell, underscores apart. -/
def digitsValue (radix : Nat) (cs : List Char) : Nat :=
  (cs.filterMap Text.hexDigit?).foldl (fun n digit => n * radix + digit) 0

def isInteger (cs : List Char) : Bool :=
  match cs with
  | '0' :: 'x' :: rest =>
    isDigits (fun c => (Text.hexDigit? c).isSome) rest && digitsValue 16 rest ≤ maxInteger
  | '0' :: 'o' :: rest =>
    isDigits (fun c => '0' ≤ c ∧ c ≤ '7') rest && digitsValue 8 rest ≤ maxInteger
  | '0' :: 'b' :: rest =>
    isDigits (fun c => c == '0' || c == '1') rest && digitsValue 2 rest ≤ maxInteger
  | '-' :: rest => isWhole rest && digitsValue 10 rest ≤ maxInteger + 1
  | cs => isWhole (dropSign cs) && digitsValue 10 (dropSign cs) ≤ maxInteger

/-- The parts of a number with a point or an exponent. -/
structure FloatParts where
  whole : List Char
  /-- From the point on. -/
  fraction : List Char
  /-- From the mark of the exponent on. -/
  exponent : List Char

def FloatParts.ofText (cs : List Char) : FloatParts :=
  let isMark := fun c : Char => c == 'e' || c == 'E'
  let mantissa := cs.takeWhile fun c => !isMark c
  { whole := mantissa.takeWhile (· != '.')
    fraction := mantissa.dropWhile (· != '.')
    exponent := cs.dropWhile fun c => !isMark c }

def FloatParts.isValid (parts : FloatParts) : Bool :=
  isWhole parts.whole
    && (parts.fraction.isEmpty || isDecimal (parts.fraction.drop 1))
    && (parts.exponent.isEmpty || isDecimal (dropSign (parts.exponent.drop 1)))
    && !(parts.exponent.isEmpty && parts.fraction.isEmpty)

/-- Whether the magnitude is beyond the largest number. -/
def FloatParts.overflows (parts : FloatParts) : Bool :=
  let power : Int := match parts.exponent.drop 1 with
    | '-' :: digits => -(digitsValue 10 digits : Int)
    | digits => digitsValue 10 (dropSign digits)
  let places := (parts.fraction.filter Char.isDigit).length
  (Binary64.ofDecimal? false (digitsValue 10 (parts.whole ++ parts.fraction))
    (power - places)).isNone

/-- A number with a point or an exponent. A positive one must not be beyond the largest number. -/
def isFloat (cs : List Char) : Bool :=
  let magnitude := dropSign cs
  if magnitude == "inf".toList || magnitude == "nan".toList then true
  else
    let parts := FloatParts.ofText magnitude
    parts.isValid && (cs.head? == some '-' || !parts.overflows)

/-- Whether a text has digits where `pattern` has a `d`, and its other characters elsewhere. -/
def fits : List Char → List Char → Bool
  | [], [] => true
  | 'd' :: pattern, c :: cs => c.isDigit && fits pattern cs
  | p :: pattern, c :: cs => p == c && fits pattern cs
  | _, _ => false

/-- A time of day. A minute may have a leap second. -/
def isTime (cs : List Char) : Bool :=
  let fraction := cs.drop 8
  fits "dd:dd:dd".toList (cs.take 8)
    && digitsValue 10 (cs.take 2) ≤ 23
    && digitsValue 10 ((cs.drop 3).take 2) ≤ 59
    && digitsValue 10 ((cs.drop 6).take 2) ≤ 60
    && (fraction.isEmpty || (fraction.head? == some '.' && (fraction.drop 1).all Char.isDigit
      && 1 < fraction.length))

def isOffset (cs : List Char) : Bool :=
  cs.isEmpty || cs == ['Z'] || cs == ['z']
    || ((fits "+dd:dd".toList cs || fits "-dd:dd".toList cs)
      && digitsValue 10 ((cs.drop 1).take 2) ≤ 23 && digitsValue 10 (cs.drop 4) ≤ 59)

def isLeapYear (year : Nat) : Bool := year % 4 == 0 && (year % 100 != 0 || year % 400 == 0)

def daysOf (year month : Nat) : Nat :=
  if month = 2 then (if isLeapYear year then 29 else 28)
  else if [4, 6, 9, 11].contains month then 30
  else 31

/-- A day of the calendar. -/
def isDay (cs : List Char) : Bool :=
  let year := digitsValue 10 (cs.take 4)
  let month := digitsValue 10 ((cs.drop 5).take 2)
  let day := digitsValue 10 (cs.drop 8)
  fits "dddd-dd-dd".toList cs && 1 ≤ month && month ≤ 12 && 1 ≤ day && day ≤ daysOf year month

/-- A date, a time, or both with an offset or without. -/
def isDate (cs : List Char) : Bool :=
  isTime cs ||
    (isDay (cs.take 10) &&
      match cs.drop 10 with
      | [] => true
      | mark :: time =>
        let clock := time.takeWhile fun c => c.isDigit || c == ':' || c == '.'
        (mark == 'T' || mark == 't' || mark == ' ') && isTime clock
          && isOffset (time.drop clock.length))

def isScalar (cs : List Char) : Bool :=
  cs == "true".toList || cs == "false".toList || isInteger cs || isFloat cs || isDate cs

def isScalarChar (c : Char) : Bool := isKeyChar c || c == '+' || c == '.' || c == ':'

/-- A number, a boolean or a date. A date may have a blank in front of its time. -/
def scalar? (cs : List Char) : Option (String × List Char) :=
  let word := cs.takeWhile isScalarChar
  let rest := cs.drop word.length
  let clock := (rest.drop 1).takeWhile isScalarChar
  let long := word ++ ' ' :: clock
  if rest.head? == some ' ' && isDate word && isDate long then
    some (String.ofList long, rest.drop (clock.length + 1))
  else if isScalar word then some (String.ofList word, rest)
  else none

end SchemaTypes.Toml
