import SchemaTypes.Disk
import SchemaTypes.Text

/-! Tools that read bytes and write bytes: `echo`, `cat`, `wc`, and those that only succeed or
fail. -/
namespace SchemaTypes.Filter

/-- What a tool leaves. -/
structure ToolResult where
  code : Nat := 0
  output : ByteArray := .empty
  errors : String := ""
  /-- What arrives where both of them go to the same place. -/
  together : ByteArray := errors.toUTF8 ++ output
  /-- Whether the input was read to its end. -/
  drained : Bool := false

/-- Reads a file by its path. -/
abbrev FileReader := String → Except SystemError ByteArray

/-- A tool is told the name it was called by. -/
abbrev Tool := (name : String) → (args : List String) → (input : ByteArray) → ToolResult

def complain (name problem : String) : String := name ++ ": " ++ problem ++ "\n"

/-- The end of a tool that does not understand its arguments. -/
def misuse (name problem : String) (explanation : String) : ToolResult where
  code := 1
  errors := complain name problem ++ explanation ++ "Try '" ++ name
    ++ " --help' for more information.\n"

/-- Splits arguments into letters and operands. If `anywhere` holds, letters may follow
operands. -/
def options (letters : List Char) (anywhere : Bool) :
    List String → Except String (List Char × List String)
  | [] => .ok ([], [])
  | arg :: rest =>
    match arg.toList with
    | ['-', '-'] => .ok ([], rest)
    | '-' :: '-' :: _ => .error ("unrecognized option '" ++ arg ++ "'")
    | '-' :: c :: cs =>
      match (c :: cs).find? fun letter => !letters.contains letter with
      | some letter => .error ("invalid option -- '" ++ letter.toString ++ "'")
      | none => do
        let (more, operands) ← options letters anywhere rest
        return (c :: cs ++ more, operands)
    | _ =>
      if anywhere then do
        let (more, operands) ← options letters anywhere rest
        return (more, arg :: operands)
      else .ok ([], arg :: rest)

/-- The cause of a failed read, without its number. -/
def briefCause : SystemError → String
  | .isDirectory => "Is a directory"
  | .notDirectory => "Not a directory"
  | .permissionDenied => "Permission denied"
  | _ => "No such file or directory"

def succeed : Tool := fun _ _ _ => {}

def fail : Tool := fun _ _ _ => { code := 1 }

/-- The meaning of a letter behind a backslash. -/
def controlOf? : Char → Option UInt8
  | 'a' => some 7
  | 'b' => some 8
  | 't' => some 9
  | 'n' => some 10
  | 'v' => some 11
  | 'f' => some 12
  | 'r' => some 13
  | '\\' => some 92
  | _ => none

def octalDigit? (c : Char) : Option Nat :=
  if '0' ≤ c ∧ c ≤ '7' then some (c.toNat - '0'.toNat) else none

/-- The value of at most `n` octal digits, behind the value `acc`, and the text after them. -/
def octal (acc : Nat) : Nat → List Char → Nat × List Char
  | 0, cs => (acc, cs)
  | _, [] => (acc, [])
  | n + 1, c :: cs =>
    match octalDigit? c with
    | some digit => octal (acc * 8 + digit) n cs
    | none => (acc, c :: cs)

def bytesOf (c : Char) : List UInt8 := c.toString.toUTF8.toList

/-- A byte of one or two hexadecimal digits. -/
def hexByte? : List Char → Option (UInt8 × List Char)
  | a :: b :: rest =>
    match Text.hexDigit? a, Text.hexDigit? b with
    | some x, some y => some ((x * 16 + y).toUInt8, rest)
    | some x, none => some (x.toUInt8, b :: rest)
    | none, _ => none
  | [a] => (Text.hexDigit? a).map fun x => (x.toUInt8, [])
  | [] => none

/-- What a backslash makes special besides letters for controls and octal codes. -/
structure Escapes where
  /-- Hexadecimal codes behind `x`. -/
  codes : Bool := false
  quotes : Bool := false

/-- Text with backslash escapes, and whether `\c` ended it. A zero may stand in front of an octal
code. -/
def unescape (escapes : Escapes) : Nat → List Char → List UInt8 × Bool
  | 0, _ | _, [] => ([], false)
  | fuel + 1, '\\' :: c :: cs =>
    let front (bytes : List UInt8) (rest : List Char) : List UInt8 × Bool :=
      let (more, ended) := unescape escapes fuel rest
      (bytes ++ more, ended)
    match controlOf? c, if escapes.codes ∧ c = 'x' then hexByte? cs else none with
    | some byte, _ => front [byte] cs
    | none, some (byte, rest) => front [byte] rest
    | none, none =>
      if c = 'c' then ([], true)
      else if c = 'e' then front [27] cs
      else if escapes.quotes ∧ c = '"' then front [34] cs
      else if (octalDigit? c).isSome then
        let (code, rest) := octal 0 3 (if c = '0' then cs else c :: cs)
        front [code.toUInt8] rest
      else front (92 :: bytesOf c) cs
  | fuel + 1, c :: cs =>
    let (more, ended) := unescape escapes fuel cs
    (bytesOf c ++ more, ended)

def unescapeText (escapes : Escapes) (text : String) : ByteArray × Bool :=
  let cs := text.toList
  let (bytes, ended) := unescape escapes (cs.length + 1) cs
  (⟨bytes.toArray⟩, ended)

/-- Leading arguments made of the letters `n`, `e` and `E` are flags. -/
def echoFlags : List String → List Char × List String
  | [] => ([], [])
  | arg :: rest =>
    match arg.toList with
    | '-' :: c :: cs =>
      if (c :: cs).all fun letter => letter == 'n' || letter == 'e' || letter == 'E' then
        let (letters, operands) := echoFlags rest
        (c :: cs ++ letters, operands)
      else ([], arg :: rest)
    | _ => ([], arg :: rest)

/-- Writes its arguments. -/
def echo : Tool := fun _ args _ =>
  let (letters, operands) := echoFlags args
  let text := " ".intercalate operands
  let escapes := (letters.filter (· != 'n')).getLast? == some 'e'
  let (bytes, ended) := if escapes then unescapeText ⟨true, false⟩ text else (text.toUTF8, false)
  { output := if ended || letters.contains 'n' then bytes else bytes ++ "\n".toUTF8 }

/-- The echo of shells: escapes always count, and `-n` is a flag only in front. -/
def plainEcho (args : List String) : ByteArray :=
  let (operands, newline) := match args with
    | "-n" :: rest => (rest, false)
    | args => (args, true)
  let (bytes, ended) := unescapeText {} (" ".intercalate operands)
  if newline && !ended then bytes ++ "\n".toUTF8 else bytes

/-- Joins files and the input, which `-` stands for. -/
def cat (read : FileReader) : Tool := fun name args input =>
  match options ['u'] true args with
  | .error problem => misuse name problem ""
  | .ok (_, operands) =>
    let push (result : ToolResult) (bytes : ByteArray) : ToolResult :=
      { result with output := result.output ++ bytes, together := result.together ++ bytes }
    let add (result : ToolResult) (operand : String) : ToolResult :=
      if operand = "-" then
        { push result (if result.drained then .empty else input) with drained := true }
      else
        match read operand with
        | .ok content => push result content
        | .error cause =>
          let problem := complain name (operand ++ ": " ++ briefCause cause)
          { result with
            code := 1
            errors := result.errors ++ problem
            together := result.together ++ problem.toUTF8 }
    (if operands.isEmpty then ["-"] else operands).foldl add {}

/-- Lines, words, characters, bytes. -/
structure Counts where
  lines : Nat := 0
  words : Nat := 0
  characters : Nat := 0
  bytes : Nat := 0

def Counts.add (a b : Counts) : Counts :=
  ⟨a.lines + b.lines, a.words + b.words, a.characters + b.characters, a.bytes + b.bytes⟩

def isBlankByte (b : UInt8) : Bool := b == 32 || (9 ≤ b && b ≤ 13)

/-- Counts the bytes; every byte is a character. -/
def Counts.ofBytes (bytes : ByteArray) : Counts :=
  let step (state : Counts × Bool) (b : UInt8) : Counts × Bool :=
    let (counts, inWord) := state
    let blank := isBlankByte b
    ({ lines := if b == 10 then counts.lines + 1 else counts.lines
       words := if inWord || blank then counts.words else counts.words + 1
       characters := counts.characters + 1
       bytes := counts.bytes + 1 }, !blank)
  (bytes.foldl step ({}, false)).1

def padLeft (width : Nat) (text : String) : String :=
  String.ofList (List.replicate (width - text.length) ' ') ++ text

/-- Counts lines, words and bytes, or what the letters ask for. -/
def wc (read : FileReader) : Tool := fun name args input =>
  match options ['c', 'l', 'm', 'w'] true args with
  | .error problem => misuse name problem ""
  | .ok (letters, operands) =>
    let letters := if letters.isEmpty then ['l', 'w', 'c'] else letters
    let columns := ['l', 'w', 'm', 'c'].filter letters.contains
    let value (counts : Counts) (letter : Char) : Nat :=
      if letter = 'l' then counts.lines
      else if letter = 'w' then counts.words
      else if letter = 'm' then counts.characters
      else counts.bytes
    let sources := if operands.isEmpty then ["-"] else operands
    let contents := sources.map fun operand =>
      (operand, if operand = "-" then .ok input else read operand)
    let sizes := contents.filterMap fun (_, content) =>
      match content with
      | .ok bytes => some (Counts.ofBytes bytes)
      | .error _ => none
    let total := sizes.foldl Counts.add {}
    let width :=
      if columns.length = 1 ∧ sources.length = 1 then 1
      else if sources.contains "-" then 7
      else (toString total.bytes).length
    let row (counts : Counts) (label : String) : String :=
      " ".intercalate (columns.map fun letter => padLeft width (toString (value counts letter)))
        ++ label ++ "\n"
    let add (result : ToolResult) (entry : String × Except SystemError ByteArray) : ToolResult :=
      match entry with
      | (operand, .ok bytes) =>
        let label := if operands.isEmpty then "" else " " ++ operand
        { result with
          output := result.output ++ (row (Counts.ofBytes bytes) label).toUTF8
          drained := result.drained || operand == "-" }
      | (operand, .error cause) =>
        { result with
          code := 1
          errors := result.errors ++ complain name (operand ++ ": " ++ briefCause cause) }
    let result := contents.foldl add {}
    let output := if sources.length > 1 then result.output ++ (row total " total").toUTF8
      else result.output
    { result with output, together := result.errors.toUTF8 ++ output }

end SchemaTypes.Filter
