import SchemaTypes.Filter.Tool

/-! Sets of bytes, and replacing, deleting or squeezing the bytes of one: the tool `tr`. -/
namespace SchemaTypes.Filter.ByteSet

/-- A byte of a set's text, and whether a backslash stood in front of it. -/
structure SetByte where
  byte : UInt8
  escaped : Bool
deriving DecidableEq, Repr

def units : Nat → List Char → List SetByte
  | 0, _ | _, [] => []
  | _, ['\\'] => [⟨92, false⟩]
  | fuel + 1, '\\' :: c :: cs =>
    match controlOf? c with
    | some byte => ⟨byte, true⟩ :: units fuel cs
    | none =>
      if (octalDigit? c).isSome then
        let (code, rest) := octal 0 3 (c :: cs)
        ⟨code.toUInt8, true⟩ :: units fuel rest
      else (bytesOf c).map (⟨·, true⟩) ++ units fuel cs
  | fuel + 1, c :: cs => (bytesOf c).map (⟨·, false⟩) ++ units fuel cs

/-- All bytes from `first` to `last`. -/
def range (first last : UInt8) : List UInt8 :=
  (List.range (last.toNat + 1 - first.toNat)).map fun i => first + i.toUInt8

/-- The bytes of a class in ascending order. -/
def classBytes? (name : String) : Option (List UInt8) :=
  let digits := range 48 57
  let upper := range 65 90
  let lower := range 97 122
  let punctuation := range 33 47 ++ range 58 64 ++ range 91 96 ++ range 123 126
  [("digit", digits), ("upper", upper), ("lower", lower), ("alpha", upper ++ lower),
    ("alnum", digits ++ upper ++ lower), ("xdigit", digits ++ range 65 70 ++ range 97 102),
    ("space", range 9 13 ++ [32]), ("blank", [9, 32]), ("cntrl", range 0 31 ++ [127]),
    ("punct", punctuation), ("graph", range 33 126), ("print", range 32 126)].lookup name

def plain? (u : SetByte) (c : Char) : Bool := !u.escaped && u.byte.toNat == c.toNat

/-- The name of a class, if `:]` follows it. -/
def className? : List SetByte → Option (String × List SetByte)
  | a :: b :: rest =>
    if plain? a ':' && plain? b ']' then some ("", rest)
    else do
      let (name, rest) ← className? (b :: rest)
      return ((Char.ofNat a.byte.toNat).toString ++ name, rest)
  | _ => none

def byteText (b : UInt8) : String :=
  if 32 ≤ b && b < 127 then (Char.ofNat b.toNat).toString
  else
    let n := b.toNat
    "\\" ++ toString (n / 64) ++ toString (n / 8 % 8) ++ toString (n % 8)

/-- The bytes of a set, with ranges and classes written out. -/
def expand : Nat → List SetByte → Except String (List UInt8)
  | 0, _ | _, [] => .ok []
  | fuel + 1, a :: rest =>
    match rest with
    | b :: c :: after =>
      if plain? a '[' && plain? b ':' && (className? (c :: after)).isSome then
        match className? (c :: after) with
        | some (name, after) =>
          match classBytes? name with
          | some bytes => do return bytes ++ (← expand fuel after)
          | none => .error ("invalid character class '" ++ name ++ "'")
        | none => .ok []
      else if plain? b '-' then
        if c.byte < a.byte then
          .error ("range-endpoints of '" ++ byteText a.byte ++ "-" ++ byteText c.byte
            ++ "' are in reverse collating sequence order")
        else do return range a.byte c.byte ++ (← expand fuel after)
      else do return a.byte :: (← expand fuel rest)
    | _ => do return a.byte :: (← expand fuel rest)

def set? (text : String) : Except String (List UInt8) :=
  let cs := text.toList
  let us := units (cs.length + 1) cs
  expand (us.length + 1) us

def complement (set : List UInt8) : List UInt8 := (range 0 255).filter fun b => !set.contains b

/-- What every byte becomes. The last byte of `target` stands for all that are missing there. -/
def table (source target : List UInt8) : Array UInt8 :=
  let last := target.getLast?.getD 0
  let filled := target ++ List.replicate (source.length - target.length) last
  (source.zip filled).foldl (fun t (a, b) => t.setIfInBounds a.toNat b) (range 0 255).toArray

/-- Membership for all bytes at once. -/
def marks (set : List UInt8) : Array Bool :=
  set.foldl (fun t b => t.setIfInBounds b.toNat true) (Array.replicate 256 false)

def isMarked (marks : Array Bool) (b : UInt8) : Bool := marks[b.toNat]?.getD false

def mapBytes (t : Array UInt8) (bytes : ByteArray) : ByteArray :=
  bytes.foldl (fun out b => out.push (t[b.toNat]?.getD b)) .empty

def deleteBytes (set : List UInt8) (bytes : ByteArray) : ByteArray :=
  let marks := marks set
  bytes.foldl (fun out b => if isMarked marks b then out else out.push b) .empty

/-- Of equal neighbours in the set only one stays. -/
def squeeze (set : List UInt8) (bytes : ByteArray) : ByteArray :=
  let marks := marks set
  let step (state : ByteArray × Option UInt8) (b : UInt8) : ByteArray × Option UInt8 :=
    let (out, last) := state
    if last == some b && isMarked marks b then (out, last) else (out.push b, some b)
  (bytes.foldl step (.empty, none)).1

/-- The bytes that `tr` writes, for the sets in its operands. -/
def apply (letters : List Char) (operands : List String) (input : ByteArray) :
    Except String ByteArray := do
  let deletes := letters.contains 'd'
  let squeezes := letters.contains 's'
  let sets ← operands.mapM set?
  let first := sets.headD []
  let first := if letters.contains 'c' || letters.contains 'C' then complement first else first
  match sets.tail with
  | [] => return if deletes then deleteBytes first input else squeeze first input
  | second :: _ =>
    if deletes then return squeeze second (deleteBytes first input)
    else
      let first := if letters.contains 't' then first.take second.length else first
      if second.isEmpty && !letters.contains 't' then
        .error "when not truncating set1, string2 must be non-empty"
      else
        let mapped := mapBytes (table first second) input
        return if squeezes then squeeze second mapped else mapped

end ByteSet

/-- Replaces, deletes or squeezes the bytes of its input. -/
def tr : Tool := fun name args input =>
  match options ['c', 'C', 'd', 's', 't'] false args with
  | .error problem => misuse name problem ""
  | .ok (letters, operands) =>
    let deletes := letters.contains 'd'
    let squeezes := letters.contains 's'
    let least := if deletes == squeezes then 2 else 1
    let most := if deletes && !squeezes then 1 else 2
    match operands.getLast? with
    | none => misuse name "missing operand" ""
    | some last =>
      if operands.length < least then
        misuse name ("missing operand after '" ++ last ++ "'")
          (if squeezes then
            "Two strings must be given when both deleting and squeezing repeats.\n"
          else "Two strings must be given when translating.\n")
      else
        match operands[most]? with
        | some extra =>
          misuse name ("extra operand '" ++ extra ++ "'")
            (if operands.length = 2 then
              "Only one string may be given when deleting without squeezing repeats.\n"
            else "")
        | none =>
          match ByteSet.apply letters operands input with
          | .ok output => { output, drained := true }
          | .error problem => { code := 1, errors := complain name problem }

end SchemaTypes.Filter
