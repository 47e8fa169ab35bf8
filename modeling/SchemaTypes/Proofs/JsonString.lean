import SchemaTypes.Json.Token

/-! Quoted JSON strings: they read back, whatever they hold and whatever follows them, and between
their quotes every character stands for itself or has an escape of printable ASCII. -/
namespace SchemaTypes.Json

/-- The piece that stands for a character between quotes. -/
def pieceOf (c : Char) : Piece :=
  match c with
  | '\u0008' | '\u000c' | '\n' | '\r' | '\t' => .char c
  | c => if c.toNat < 0x20 then .unit c.toNat else .char c

theorem stringPieces?_hexByte {n : Nat} (h : n < 0x20) (acc : List Piece) (rest : List Char) :
    stringPieces? acc ('\\' :: 'u' :: '0' :: '0' :: hexByte n ++ rest)
      = stringPieces? (.unit n :: acc) rest := by
  have hdigits : ∀ n < 0x20,
      hexUnit? '0' '0' (Nat.digitChar (n / 16)) (Nat.digitChar (n % 16)) = some n := by
    decide
  simp only [hexByte, List.cons_append, List.nil_append, stringPieces?, hdigits n h]

theorem stringPieces?_char {c : Char} (hq : c ≠ '"') (hb : c ≠ '\\') (hc : ¬c.toNat < 0x20)
    (acc : List Piece) (rest : List Char) :
    stringPieces? acc (c :: rest) = stringPieces? (.char c :: acc) rest := by
  rw [stringPieces?, if_neg hc]
  · exact fun h => hq h
  · exact fun _ _ _ _ _ h _ => hb h
  · exact fun _ _ h _ => hb h

theorem stringPieces?_escapeChar (c : Char) (acc : List Piece) (rest : List Char) :
    stringPieces? acc (escapeChar c ++ rest) = stringPieces? (pieceOf c :: acc) rest := by
  unfold escapeChar
  split
  · rfl
  · rfl
  · rfl
  · rfl
  · rfl
  · rfl
  · rfl
  next hq hb hback hfeed hn hr ht =>
    have hpiece : pieceOf c = if c.toNat < 0x20 then .unit c.toNat else .char c := by
      unfold pieceOf
      split <;> first | contradiction | rfl
    rw [hpiece]
    split
    next hc => exact stringPieces?_hexByte hc acc rest
    next hc => exact stringPieces?_char hq hb hc acc rest

theorem stringPieces?_escape (cs rest : List Char) (acc : List Piece) :
    stringPieces? acc (cs.flatMap escapeChar ++ '"' :: rest)
      = some (acc.reverse ++ cs.map pieceOf, rest) := by
  induction cs generalizing acc with
  | nil => simp [stringPieces?]
  | cons c cs ih =>
    rw [List.flatMap_cons, List.append_assoc, stringPieces?_escapeChar, ih]
    simp

/-- A unit that is no surrogate stands for a character alone. -/
theorem joinPieces?_unit {n : Nat} (h : n < 0xD800 ∨ 0xE000 ≤ n) (acc : List Char)
    (pieces : List Piece) :
    joinPieces? acc (.unit n :: pieces) = joinPieces? (Char.ofNat n :: acc) pieces := by
  have hhigh : ¬(0xD800 ≤ n ∧ n < 0xDC00) := by omega
  have hlow : ¬(0xDC00 ≤ n ∧ n < 0xE000) := by omega
  have heither : ¬(0xD800 ≤ n ∧ n < 0xE000) := by omega
  rcases pieces with _ | ⟨_ | low, rest⟩
  · exact if_neg heither
  · exact if_neg heither
  · exact (if_neg hhigh).trans (if_neg hlow)

theorem joinPieces?_pieceOf (c : Char) (acc : List Char) (pieces : List Piece) :
    joinPieces? acc (pieceOf c :: pieces) = joinPieces? (c :: acc) pieces := by
  unfold pieceOf
  split
  · rfl
  · rfl
  · rfl
  · rfl
  · rfl
  next =>
    split
    next hc =>
      have hsingle : c.toNat < 0xD800 ∨ 0xE000 ≤ c.toNat := by omega
      rw [joinPieces?_unit hsingle, Char.ofNat_toNat]
    next => rfl

/-- The pieces of the quoted text are its characters. -/
theorem joinPieces?_map_pieceOf (cs acc : List Char) :
    joinPieces? acc (cs.map pieceOf) = some (acc.reverse ++ cs) := by
  induction cs generalizing acc with
  | nil => simp [joinPieces?]
  | cons c cs ih =>
    rw [List.map_cons, joinPieces?_pieceOf, ih]
    simp

/-! ### Characters between quotes -/

def isPrintable (c : Char) : Bool := 0x20 ≤ c.toNat && c.toNat < 0x7F

theorem mem_escapeChar {c d : Char} (h : d ∈ escapeChar c) :
    isPrintable d ∨ d = c ∧ 0x20 ≤ c.toNat := by
  have hbyte : ∀ n < 0x20, ('\\' :: 'u' :: '0' :: '0' :: hexByte n).all isPrintable := by decide
  unfold escapeChar at h
  split at h
  case h_8 =>
    split at h
    next hc => exact .inl (List.all_eq_true.1 (hbyte _ hc) d h)
    next hc =>
      obtain rfl := List.mem_singleton.1 h
      exact .inr ⟨rfl, Nat.le_of_not_lt hc⟩
  all_goals
    refine .inl (List.all_eq_true.1 ?_ d h)
    rfl

/-- A character beyond ASCII has no escape. -/
theorem escapeChar_of_le {c : Char} (h : 0x80 ≤ c.toNat) : escapeChar c = [c] := by
  unfold escapeChar
  split
  case h_8 => exact if_neg (by omega)
  all_goals exact absurd h (by decide)

theorem mem_quote {d : Char} {s : String} (h : d ∈ (quote s).toList) :
    isPrintable d ∨ d ∈ s.toList ∧ 0x20 ≤ d.toNat := by
  have hcases : d = '"' ∨ d ∈ s.toList.flatMap escapeChar := by
    simpa [quote, escape, or_comm] using h
  rcases hcases with rfl | hd
  · exact .inl (by decide)
  · obtain ⟨c, hc, hdc⟩ := List.mem_flatMap.1 hd
    exact (mem_escapeChar hdc).imp_right fun ⟨heq, hle⟩ => heq ▸ ⟨hc, heq ▸ hle⟩

theorem mem_quote_of_le {c : Char} {s : String} (h : c ∈ s.toList) (hc : 0x80 ≤ c.toNat) :
    c ∈ (quote s).toList := by
  have hinside : c ∈ s.toList.flatMap escapeChar :=
    List.mem_flatMap.2 ⟨c, h, by simp [escapeChar_of_le hc]⟩
  simp [quote, escape, hinside]

end SchemaTypes.Json
