/-! UTF-8 text from bytes: strict reading with the place of the first fault, and reading that
puts U+FFFD where bytes make no character. -/
namespace SchemaTypes.Text

/-- Why a byte sequence is not UTF-8: the bytes before `validUpTo` are, and the fault there is
`length` bytes long, or `none` where the text stops inside a character. -/
structure Utf8Fault where
  validUpTo : Nat
  length : Option Nat
deriving DecidableEq, Repr

def Utf8Fault.message (fault : Utf8Fault) : String :=
  match fault.length with
  | some n => s!"invalid utf-8 sequence of {n} bytes from index {fault.validUpTo}"
  | none => s!"incomplete utf-8 byte sequence from index {fault.validUpTo}"

/-- How a byte sequence starts. -/
inductive Utf8Step where
  | done
  | char (c : Char) (rest : List UInt8)
  /-- The first `length` bytes start no character. -/
  | bad (length : Nat) (rest : List UInt8)
  /-- The bytes left start a character and do not end it. -/
  | cut

/-- The length of the character a byte opens, and the range of the byte after it. -/
def leadByte (b : Nat) : Option (Nat × Nat × Nat) :=
  if b < 0x80 then some (1, 0, 0)
  else if 0xC2 ≤ b ∧ b ≤ 0xDF then some (2, 0x80, 0xBF)
  else if b = 0xE0 then some (3, 0xA0, 0xBF)
  else if b = 0xED then some (3, 0x80, 0x9F)
  else if 0xE1 ≤ b ∧ b ≤ 0xEF then some (3, 0x80, 0xBF)
  else if b = 0xF0 then some (4, 0x90, 0xBF)
  else if 0xF1 ≤ b ∧ b ≤ 0xF3 then some (4, 0x80, 0xBF)
  else if b = 0xF4 then some (4, 0x80, 0x8F)
  else none

/-- Reads the `left` continuation bytes of a character whose first `read` bytes hold `value`. -/
def continuation (read value low high : Nat) : Nat → List UInt8 → Utf8Step
  | 0, rest => .char (Char.ofNat value) rest
  | _ + 1, [] => .cut
  | left + 1, b :: rest =>
    if low ≤ b.toNat ∧ b.toNat ≤ high then
      continuation (read + 1) (value * 64 + b.toNat % 64) 0x80 0xBF left rest
    else .bad read (b :: rest)

def utf8Step : List UInt8 → Utf8Step
  | [] => .done
  | b :: rest =>
    match leadByte b.toNat with
    | none => .bad 1 rest
    | some (1, _, _) => .char (Char.ofNat b.toNat) rest
    | some (n, low, high) =>
      continuation 1 (b.toNat % Nat.pow 2 (7 - n)) low high (n - 1) rest

/-- Strict reading of at most `fuel` characters from the byte at `index`. -/
def charsOfBytes (index : Nat) (acc : List Char) : Nat → List UInt8 → Except Utf8Fault (List Char)
  | 0, _ => .ok acc.reverse
  | fuel + 1, bytes =>
    match utf8Step bytes with
    | .done => .ok acc.reverse
    | .char c rest => charsOfBytes (index + (bytes.length - rest.length)) (c :: acc) fuel rest
    | .bad n _ => .error ⟨index, some n⟩
    | .cut => .error ⟨index, none⟩

/-- The first fault of a byte sequence. -/
def utf8Fault (bytes : List UInt8) : Utf8Fault :=
  match charsOfBytes 0 [] bytes.length bytes with
  | .ok _ => ⟨bytes.length, none⟩
  | .error fault => fault

def ofUtf8 (bytes : ByteArray) : Except Utf8Fault String :=
  match String.fromUTF8? bytes with
  | some s => .ok s
  | none => .error (utf8Fault bytes.toList)

def replacingChars (acc : List Char) : Nat → List UInt8 → List Char
  | 0, _ => acc.reverse
  | fuel + 1, bytes =>
    match utf8Step bytes with
    | .done => acc.reverse
    | .char c rest => replacingChars (c :: acc) fuel rest
    | .bad _ rest => replacingChars ('\uFFFD' :: acc) fuel rest
    | .cut => ('\uFFFD' :: acc).reverse

/-- Reads bytes as text, with U+FFFD for every maximal piece that is no character. -/
def ofUtf8Replacing (bytes : ByteArray) : String :=
  match String.fromUTF8? bytes with
  | some s => s
  | none => String.ofList (replacingChars [] bytes.toList.length bytes.toList)

end SchemaTypes.Text
