import SchemaTypes.Filter.Tool
import SchemaTypes.Text

/-! Writing arguments in a given form: the tool `printf`. -/
namespace SchemaTypes.Filter.Printf

/-- What stands in front of the letter of a directive. -/
structure Layout where
  left : Bool := false
  zero : Bool := false
  plus : Bool := false
  blank : Bool := false
  alternative : Bool := false
  width : Nat := 0
  precision : Option Nat := none
deriving DecidableEq, Repr

/-- A part of a format. -/
inductive Part where
  | bytes (value : List UInt8)
  /-- Nothing behind this part is written. -/
  | stop
  | directive (layout : Layout) (letter : Char)
  /-- The text is no directive. -/
  | invalid (text : String)
deriving Repr

def digits (acc : Nat) : List Char → Nat × List Char
  | [] => (acc, [])
  | c :: cs => if c.isDigit then digits (acc * 10 + (c.toNat - '0'.toNat)) cs else (acc, c :: cs)

def flags (layout : Layout) : List Char → Layout × List Char
  | '-' :: cs => flags { layout with left := true } cs
  | '0' :: cs => flags { layout with zero := true } cs
  | '+' :: cs => flags { layout with plus := true } cs
  | ' ' :: cs => flags { layout with blank := true } cs
  | '#' :: cs => flags { layout with alternative := true } cs
  | cs => (layout, cs)

def layout (cs : List Char) : Layout × List Char :=
  let (layout, cs) := flags {} cs
  let (width, cs) := digits 0 cs
  match cs with
  | '.' :: cs =>
    let (precision, cs) := digits 0 cs
    ({ layout with width, precision := some precision }, cs)
  | cs => ({ layout with width }, cs)

/-- The meaning of the text behind a backslash; `extended` admits more than the portable escapes. -/
def escape (extended : Bool) (c : Char) (cs : List Char) : Part × List Char :=
  match controlOf? c with
  | some byte => (.bytes [byte], cs)
  | none =>
    if (octalDigit? c).isSome then
      let (code, rest) := octal 0 3 (c :: cs)
      (.bytes [code.toUInt8], rest)
    else if c == 'e' then (.bytes [27], cs)
    else if extended && c == '"' then (.bytes [34], cs)
    else if extended && c == 'c' then (.stop, cs)
    else
      match if extended && c == 'x' then hexByte? cs else none with
      | some (byte, rest) => (.bytes [byte], rest)
      | none => (.bytes (92 :: bytesOf c), cs)

def parts (extended : Bool) : Nat → List Char → List Part
  | 0, _ | _, [] => []
  | fuel + 1, '\\' :: c :: cs =>
    let (part, rest) := escape extended c cs
    part :: parts extended fuel rest
  | fuel + 1, '%' :: '%' :: cs => .bytes [37] :: parts extended fuel cs
  | fuel + 1, '%' :: cs =>
    let (layout, rest) := layout cs
    match rest with
    | [] => [.invalid (String.ofList ('%' :: cs))]
    | letter :: rest' =>
      if "diouxXcsb".toList.contains letter then
        .directive layout letter :: parts extended fuel rest'
      else [.invalid (String.ofList ('%' :: cs.take (cs.length - rest'.length)))]
  | fuel + 1, c :: cs => .bytes (bytesOf c) :: parts extended fuel cs

def Part.isDirective : Part → Bool
  | .directive _ _ => true
  | _ => false

/-- How far an argument is a number. -/
inductive Reading where
  | whole
  | front
  | none
deriving DecidableEq, Repr

def magnitude (cs : List Char) : Nat × List Char :=
  match cs with
  | '0' :: x :: d :: rest =>
    if (x = 'x' ∨ x = 'X') ∧ (Text.hexDigit? d).isSome then
      let hex := (d :: rest).takeWhile fun c => (Text.hexDigit? c).isSome
      (hex.foldl (fun acc c => acc * 16 + (Text.hexDigit? c).getD 0) 0, (d :: rest).drop hex.length)
    else octal 0 cs.length cs
  | '0' :: _ => octal 0 cs.length cs
  | cs => digits 0 cs

/-- The number in an argument: decimal, octal behind `0`, hexadecimal behind `0x`, or the code of
a character behind a quote. -/
def number (text : String) : Int × Reading :=
  let cs := text.toList
  if cs.head?.any fun c => c == '\'' || c == '"' then
    (((bytesOf (cs.tail.headD '\x00')).headD 0).toNat, .whole)
  else
    match cs.dropWhile fun c => c == ' ' || ('\t' ≤ c ∧ c ≤ '\r') with
    | [] => (0, if text.isEmpty then .whole else .none)
    | c :: cs =>
      let signed := c = '-' ∨ c = '+'
      let body := if signed then cs else c :: cs
      let (value, rest) := magnitude body
      let value : Int := if c = '-' then -(value : Int) else value
      (value, if rest.length = body.length then .none
        else if rest.isEmpty then .whole else .front)

def pad (layout : Layout) (body : List UInt8) : List UInt8 :=
  let blanks := List.replicate (layout.width - body.length) 32
  if layout.left then body ++ blanks else blanks ++ body

/-- A number with its sign, as wide as the layout asks. -/
def writeNumber (layout : Layout) (letter : Char) (value : Int) : List UInt8 :=
  let signed := letter == 'd' || letter == 'i'
  let whole := if signed then value.natAbs else (value % Nat.pow 2 64).toNat
  let base := if letter == 'o' then 8 else if letter == 'x' || letter == 'X' then 16 else 10
  let text := String.ofList (Nat.toDigits base whole)
  let text := if letter == 'X' then text.toUpper else text
  let text := if whole == 0 && layout.precision == some 0 then "" else text
  let text := String.ofList (List.replicate ((layout.precision.getD 1) - text.length) '0') ++ text
  let front :=
    if signed then
      if value < 0 then "-" else if layout.plus then "+" else if layout.blank then " " else ""
    else if layout.alternative && whole != 0 then
      if letter == 'o' then (if text.startsWith "0" then "" else "0") else "0" ++ letter.toString
    else ""
  if layout.zero && !layout.left && layout.precision.isNone then
    let zeros := List.replicate (layout.width - front.length - text.length) '0'
    (front ++ String.ofList zeros ++ text).toUTF8.toList
  else pad layout (front ++ text).toUTF8.toList

def writeText (layout : Layout) (bytes : List UInt8) : List UInt8 :=
  pad layout (match layout.precision with | some n => bytes.take n | none => bytes)

/-- What writing came to so far. -/
structure Progress where
  output : ByteArray := .empty
  problems : List String := []
  args : List String
  ended : Bool := false

/-- The words that differ between the tool and the command of shells. -/
structure Wording where
  extended : Bool
  notNumber : String → String
  notWhole : String → String
  invalid : String → String

def Progress.write (p : Progress) (bytes : List UInt8) : Progress :=
  { p with output := p.output ++ ⟨bytes.toArray⟩ }

def step (wording : Wording) (p : Progress) (part : Part) : Progress :=
  if p.ended then p
  else
    match part with
    | .bytes value => p.write value
    | .stop => { p with ended := true }
    | .invalid text => { p with problems := p.problems ++ [wording.invalid text], ended := true }
    | .directive layout letter =>
      let given := p.args.head?
      let arg := given.getD ""
      let p := { p with args := p.args.tail }
      if letter == 's' then p.write (writeText layout arg.toUTF8.toList)
      else if letter == 'c' then p.write (pad layout (arg.toUTF8.toList.take 1))
      else if letter == 'b' then
        let (bytes, ended) := unescapeText ⟨wording.extended, wording.extended⟩ arg
        { p.write (writeText layout bytes.toList) with ended }
      else
        let (value, reading) := number arg
        let problems := match reading with
          | .whole => []
          | .front => [wording.notWhole arg]
          | .none => [wording.notNumber arg]
        { p.write (writeNumber layout letter value) with problems := p.problems ++ problems }

/-- The format is used again as long as it takes arguments and some are left. -/
def rounds (wording : Wording) (parts : List Part) : Nat → Progress → Progress
  | 0, p => p
  | fuel + 1, p =>
    let p := parts.foldl (step wording) p
    if p.ended || p.args.isEmpty || !parts.any Part.isDirective then p
    else rounds wording parts fuel p

def run (wording : Wording) (format : String) (args : List String) : Progress :=
  let cs := format.toList
  rounds wording (parts wording.extended (cs.length + 1) cs) (args.length + 1) { args }

end Printf

/-- Writes its arguments in the form that the first one gives. -/
def printf : Tool := fun name args _ =>
  let args := if args.head? = some "--" then args.tail else args
  match args with
  | [] => misuse name "missing operand" ""
  | format :: args =>
    let wording : Printf.Wording := {
      extended := true
      notNumber := fun arg => complain name ("'" ++ arg ++ "': expected a numeric value")
      notWhole := fun arg => complain name ("'" ++ arg ++ "': value not completely converted")
      invalid := fun text => complain name (text ++ ": invalid conversion specification") }
    let p := Printf.run wording format args
    let excess := match p.args with
      | arg :: _ =>
        if p.ended then ""
        else complain name ("warning: ignoring excess arguments, starting with '" ++ arg ++ "'")
      | [] => ""
    { code := if p.problems.isEmpty then 0 else 1
      output := p.output
      errors := String.join p.problems ++ excess }

end SchemaTypes.Filter
