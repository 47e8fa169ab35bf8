import Mathlib.Data.List.Basic
import SchemaTypes.Json.Value
import SchemaTypes.Proofs.Literal

/-! String literals of a script as the UTF-16 units that they stand for. Between double quotes a line
or paragraph separator may stand for itself, as in JSON. -/
namespace SchemaTypes.Text

/-! ### UTF-16 -/

/-- The units of a character: its code, or two halves of a surrogate pair. -/
def unitsOf (code : Nat) : List Nat :=
  if code < 0x10000 then [code]
  else [0xD800 + (code - 0x10000) / 0x400, 0xDC00 + (code - 0x10000) % 0x400]

def utf16 (cs : List Char) : List Nat := cs.flatMap fun c => unitsOf c.toNat

theorem utf16_cons (c : Char) (cs : List Char) : utf16 (c :: cs) = unitsOf c.toNat ++ utf16 cs :=
  List.flatMap_cons

/-- The first units of a text decide its first character: no code is half of a surrogate pair. -/
theorem unitsOf_append_inj {c d : Char} {us vs : List Nat}
    (h : unitsOf c.toNat ++ us = unitsOf d.toNat ++ vs) : c = d ∧ us = vs := by
  have hc : c.toNat < 0xD800 ∨ 0xDFFF < c.toNat ∧ c.toNat < 0x110000 := c.valid
  have hd : d.toNat < 0xD800 ∨ 0xDFFF < d.toNat ∧ d.toNat < 0x110000 := d.valid
  have hsplit (n : Nat) : n = 0x400 * (n / 0x400) + n % 0x400 := (Nat.div_add_mod n 0x400).symm
  have hcs := hsplit (c.toNat - 0x10000)
  have hds := hsplit (d.toNat - 0x10000)
  unfold unitsOf at h
  split at h <;> split at h <;>
    simp only [List.cons_append, List.nil_append, List.cons.injEq] at h
  · exact ⟨Char.toNat_inj.1 h.1, h.2⟩
  · omega
  · omega
  · exact ⟨Char.toNat_inj.1 (by omega), h.2.2⟩

theorem utf16_injective : Function.Injective utf16 := by
  intro cs ds h
  induction cs generalizing ds with
  | nil =>
    cases ds with
    | nil => rfl
    | cons d ds =>
      rw [utf16_cons, unitsOf] at h
      split at h <;> cases h
  | cons c cs ih =>
    cases ds with
    | nil =>
      rw [utf16_cons, unitsOf] at h
      split at h <;> cases h
    | cons d ds =>
      rw [utf16_cons, utf16_cons] at h
      obtain ⟨rfl, hrest⟩ := unitsOf_append_inj h
      rw [ih hrest]

/-! ### Literals -/

/-- What a backslash and one character stand for. -/
def escapedChar (c : Char) : Char :=
  match c with
  | 'n' => '\n'
  | 'r' => '\r'
  | 't' => '\t'
  | 'b' => '\u0008'
  | 'f' => '\u000c'
  | 'v' => '\u000b'
  | c => c

/-- The code between braces, and the text behind them. -/
def bracedCode? (cs : List Char) : Option (Nat × List Char) :=
  match cs.takeWhile (fun c => (hexDigit? c).isSome),
    cs.dropWhile (fun c => (hexDigit? c).isSome) with
  | digit :: digits, '\x7d' :: rest =>
    (hexCode? 0 (digits.length + 1) (digit :: digits)).bind fun read =>
      if read.1 ≤ 0x10FFFF then some (read.1, rest) else none
  | _, _ => none

/-- Reads an escape behind its backslash: the units that it stands for, and what follows it. A line
that ends there goes on. -/
def readEscape : List Char → Option (List Nat × List Char)
  | [] => none
  | 'u' :: '\x7b' :: rest => (bracedCode? rest).map fun read => (unitsOf read.1, read.2)
  | 'u' :: rest => (hexCode? 0 4 rest).map fun read => ([read.1], read.2)
  | 'x' :: rest => (hexCode? 0 2 rest).map fun read => ([read.1], read.2)
  | '\r' :: '\n' :: rest => some ([], rest)
  | '0' :: rest => if (rest.head?.map Char.isDigit).getD false then none else some ([0], rest)
  | c :: rest =>
    if c.isDigit then none
    else if isLineEnd c then some ([], rest)
    else some (unitsOf (escapedChar c).toNat, rest)

theorem length_le_of_hexCode? {acc n code : Nat} {cs rest : List Char}
    (h : hexCode? acc n cs = some (code, rest)) : rest.length ≤ cs.length := by
  induction n generalizing acc cs with
  | zero =>
    cases h
    exact Nat.le_refl _
  | succ n ih =>
    cases cs with
    | nil => cases h
    | cons c cs =>
      rw [hexCode?] at h
      split at h
      · exact Nat.le_succ_of_le (ih h)
      · cases h

theorem length_le_of_bracedCode? {code : Nat} {cs rest : List Char}
    (h : bracedCode? cs = some (code, rest)) : rest.length ≤ cs.length := by
  have hdrop := (List.dropWhile_suffix (l := cs) fun c => (hexDigit? c).isSome).length_le
  unfold bracedCode? at h
  split at h
  next more _ hbehind =>
    obtain ⟨read, -, hread⟩ := Option.bind_eq_some_iff.1 h
    split at hread
    · cases hread
      rw [hbehind, List.length_cons] at hdrop
      omega
    · cases hread
  · cases h

theorem length_lt_of_readEscape {cs rest : List Char} {units : List Nat}
    (h : readEscape cs = some (units, rest)) : rest.length < cs.length := by
  unfold readEscape at h
  split at h
  · cases h
  · obtain ⟨⟨code, more⟩, hcode, heq⟩ := Option.map_eq_some_iff.1 h
    cases heq
    have := length_le_of_bracedCode? hcode
    simp only [List.length_cons]
    omega
  · obtain ⟨⟨code, more⟩, hcode, heq⟩ := Option.map_eq_some_iff.1 h
    cases heq
    exact Nat.lt_succ_of_le (length_le_of_hexCode? hcode)
  · obtain ⟨⟨code, more⟩, hcode, heq⟩ := Option.map_eq_some_iff.1 h
    cases heq
    exact Nat.lt_succ_of_le (length_le_of_hexCode? hcode)
  · cases h
    simp only [List.length_cons]
    omega
  · split at h
    · cases h
    · cases h
      simp
  · split_ifs at h <;> cases h <;> simp

/-- Reads a literal behind its opening quote: the units that it stands for, and what follows its
closing quote. -/
def readLiteral (quote : Char) (cs : List Char) : Option (List Nat × List Char) :=
  match cs with
  | [] => none
  | c :: rest =>
    if c = quote then some ([], rest)
    else if c = '\\' then
      match _h : readEscape rest with
      | none => none
      | some (units, behind) =>
        (readLiteral quote behind).map fun read => (units ++ read.1, read.2)
    else if c = '\n' ∨ c = '\r' then none
    else (readLiteral quote rest).map fun read => (unitsOf c.toNat ++ read.1, read.2)
termination_by cs.length
decreasing_by
  · have := length_lt_of_readEscape _h
    simp only [List.length_cons]
    omega
  · simp

/-- Reads a literal in either kind of quotes. -/
def literal? : List Char → Option (List Nat × List Char)
  | '\'' :: rest => readLiteral '\'' rest
  | '"' :: rest => readLiteral '"' rest
  | _ => none

theorem readLiteral_end (quote : Char) (rest : List Char) :
    readLiteral quote (quote :: rest) = some ([], rest) := by
  rw [readLiteral, if_pos rfl]

theorem readLiteral_char {quote c : Char} (hq : c ≠ quote) (hb : c ≠ '\\') (hn : c ≠ '\n')
    (hr : c ≠ '\r') (rest : List Char) :
    readLiteral quote (c :: rest)
      = (readLiteral quote rest).map fun read => (unitsOf c.toNat ++ read.1, read.2) := by
  rw [readLiteral, if_neg hq, if_neg hb, if_neg (not_or.2 ⟨hn, hr⟩)]

theorem readLiteral_escape {quote : Char} (hq : quote ≠ '\\') (escape : List Char)
    {rest : List Char} {units : List Nat} (h : readEscape (escape ++ rest) = some (units, rest)) :
    readLiteral quote ('\\' :: escape ++ rest)
      = (readLiteral quote rest).map fun read => (units ++ read.1, read.2) := by
  rw [List.cons_append, readLiteral, if_neg hq.symm, if_pos rfl]
  split
  next hnone => rw [h] at hnone; cases hnone
  next hsome =>
    rw [h] at hsome
    cases hsome
    rfl

/-- What is written character by character is read character by character. -/
theorem readLiteral_flatMap {quote : Char} {write : Char → List Char}
    (h : ∀ c rest, readLiteral quote (write c ++ rest)
      = (readLiteral quote rest).map fun read => (unitsOf c.toNat ++ read.1, read.2))
    (cs rest : List Char) :
    readLiteral quote (cs.flatMap write ++ quote :: rest) = some (utf16 cs, rest) := by
  induction cs with
  | nil => exact readLiteral_end quote rest
  | cons c cs ih =>
    rw [List.flatMap_cons, List.append_assoc, h, ih, utf16_cons]
    rfl

theorem readLiteral_escapeSingleChar (c : Char) (rest : List Char) :
    readLiteral '\'' (escapeSingleChar c ++ rest)
      = (readLiteral '\'' rest).map fun read => (unitsOf c.toNat ++ read.1, read.2) := by
  have hq : '\'' ≠ '\\' := by decide
  unfold escapeSingleChar
  split
  · exact readLiteral_escape hq ['\\'] rfl
  · exact readLiteral_escape hq ['\''] rfl
  · exact readLiteral_escape hq ['n'] rfl
  · exact readLiteral_escape hq ['r'] rfl
  · exact readLiteral_escape hq ['u', '2', '0', '2', '8'] rfl
  · exact readLiteral_escape hq ['u', '2', '0', '2', '9'] rfl
  next hb hs hn hr _ _ => exact readLiteral_char hs hb hn hr rest

theorem readEscape_hexByte {n : Nat} (h : n < 0x20) (rest : List Char) :
    readEscape ('u' :: '0' :: '0' :: Json.hexByte n ++ rest) = some ([n], rest) := by
  have hdigits : ∀ n < 0x20, hexDigit? (Nat.digitChar (n / 16)) = some (n / 16)
      ∧ hexDigit? (Nat.digitChar (n % 16)) = some (n % 16) := by
    decide
  obtain ⟨hhigh, hlow⟩ := hdigits n h
  show (hexCode? 0 4 ('0' :: '0' :: Nat.digitChar (n / 16) :: Nat.digitChar (n % 16) :: rest)).map
    _ = _
  have hzero : hexDigit? '0' = some 0 := rfl
  simp only [hexCode?, hzero, hhigh, hlow, Option.map_some]
  congr 3
  omega

theorem readLiteral_escapeChar (c : Char) (rest : List Char) :
    readLiteral '"' (Json.escapeChar c ++ rest)
      = (readLiteral '"' rest).map fun read => (unitsOf c.toNat ++ read.1, read.2) := by
  have hq : '"' ≠ '\\' := by decide
  unfold Json.escapeChar
  split
  · exact readLiteral_escape hq ['"'] rfl
  · exact readLiteral_escape hq ['\\'] rfl
  · exact readLiteral_escape hq ['b'] rfl
  · exact readLiteral_escape hq ['f'] rfl
  · exact readLiteral_escape hq ['n'] rfl
  · exact readLiteral_escape hq ['r'] rfl
  · exact readLiteral_escape hq ['t'] rfl
  next hd hb _ _ hn hr _ =>
    split
    next hcontrol =>
      have hunits : unitsOf c.toNat = [c.toNat] := if_pos (by omega)
      rw [hunits]
      exact readLiteral_escape hq _ (readEscape_hexByte hcontrol rest)
    next => exact readLiteral_char hd hb hn hr rest

/-- A text in single quotes stands for the text. -/
theorem literal?_singleQuoted (s : String) (rest : List Char) :
    literal? ((singleQuoted s).toList ++ rest) = some (utf16 s.toList, rest) := by
  have hchars : (singleQuoted s).toList ++ rest
      = '\'' :: (s.toList.flatMap escapeSingleChar ++ '\'' :: rest) := by
    simp [singleQuoted, escapeSingle]
  rw [hchars, literal?]
  exact readLiteral_flatMap readLiteral_escapeSingleChar _ _

/-- A text quoted as JSON stands for the text. -/
theorem literal?_quote (s : String) (rest : List Char) :
    literal? ((Json.quote s).toList ++ rest) = some (utf16 s.toList, rest) := by
  have hchars : (Json.quote s).toList ++ rest
      = '"' :: (s.toList.flatMap Json.escapeChar ++ '"' :: rest) := by
    simp [Json.quote, Json.escape]
  rw [hchars, literal?]
  exact readLiteral_flatMap readLiteral_escapeChar _ _

end SchemaTypes.Text
