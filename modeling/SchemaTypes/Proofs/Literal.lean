import SchemaTypes.Text

/-! String literals as a script reads them, and why a quoted text cannot leave its quotes. -/
namespace SchemaTypes.Text

/-- The characters that end a line, which stand in no literal. -/
def isLineEnd (c : Char) : Bool := c == '\n' || c == '\r' || c == '\u2028' || c == '\u2029'

/-- The character with a code. One half of a surrogate pair is none. -/
def charOfCode? (code : Nat) : Option Char :=
  if code.isValidChar then some (.ofNat code) else none

/-- What a backslash and one character stand for. Behind a backslash digits, `u` and `x` begin a
code. -/
def escaped? (c : Char) : Option Char :=
  match c with
  | 'n' => some '\n'
  | 'r' => some '\r'
  | 't' => some '\t'
  | 'b' => some '\u0008'
  | 'f' => some '\u000c'
  | 'v' => some '\u000b'
  | c => if c.isDigit || isLineEnd c || c == 'u' || c == 'x' then none else some c

/-- Reads a literal behind its opening quote: its text, and what follows its closing quote. -/
def readQuoted (quote : Char) : List Char → Option (List Char × List Char)
  | [] => none
  | c :: rest =>
    if c = '\\' then
      match rest with
      | 'u' :: a :: b :: c :: d :: rest => do
        let (code, _) ← hexCode? 0 4 [a, b, c, d]
        let char ← charOfCode? code
        (readQuoted quote rest).map fun read => (char :: read.1, read.2)
      | c :: rest => do
        let char ← escaped? c
        (readQuoted quote rest).map fun read => (char :: read.1, read.2)
      | [] => none
    else if c = quote then some ([], rest)
    else if isLineEnd c then none
    else (readQuoted quote rest).map fun read => (c :: read.1, read.2)

theorem readQuoted_quote {quote : Char} (h : quote ≠ '\\') (rest : List Char) :
    readQuoted quote (quote :: rest) = some ([], rest) := by
  rw [readQuoted.eq_def]
  exact (if_neg h).trans (if_pos rfl)

theorem readQuoted_char {quote c : Char} (hb : c ≠ '\\') (hq : c ≠ quote)
    (he : isLineEnd c = false) (rest : List Char) :
    readQuoted quote (c :: rest)
      = (readQuoted quote rest).map fun read => (c :: read.1, read.2) := by
  rw [readQuoted.eq_def]
  refine (if_neg hb).trans ((if_neg hq).trans ?_)
  rw [he]
  rfl

theorem readQuoted_escaped {quote c char : Char} (h : escaped? c = some char) (rest : List Char) :
    readQuoted quote ('\\' :: c :: rest)
      = (readQuoted quote rest).map fun read => (char :: read.1, read.2) := by
  have hu : c ≠ 'u' := by
    rintro rfl
    cases h
  rw [readQuoted, if_pos rfl, h]
  · rfl
  · exact fun _ _ _ _ _ hu' => absurd hu' hu

theorem readQuoted_unit {quote a b c d char : Char} {code : Nat} {more : List Char}
    (hc : hexCode? 0 4 [a, b, c, d] = some (code, more)) (h : charOfCode? code = some char)
    (rest : List Char) :
    readQuoted quote ('\\' :: 'u' :: a :: b :: c :: d :: rest)
      = (readQuoted quote rest).map fun read => (char :: read.1, read.2) := by
  rw [readQuoted, if_pos rfl]
  simp only [hc, Option.bind_eq_bind, Option.bind_some, h]

/-- A reader leaves as little behind whatever its result is made into. -/
theorem length_lt_of_map {α β : Type} {read : Option (α × List Char)} (f : α → β) {b : β} {n : Nat}
    {rest : List Char} (hread : ∀ {a rest}, read = some (a, rest) → rest.length < n)
    (h : (read.map fun read => (f read.1, read.2)) = some (b, rest)) : rest.length < n := by
  obtain ⟨⟨a, behind⟩, hsome, heq⟩ := Option.map_eq_some_iff.1 h
  cases heq
  exact hread hsome

theorem length_lt_of_readQuoted {quote : Char} {cs text rest : List Char}
    (h : readQuoted quote cs = some (text, rest)) : rest.length < cs.length := by
  fun_induction readQuoted quote cs generalizing text rest with
  | case1 => cases h
  | case2 a b c d cs ih =>
    obtain ⟨code, _, h⟩ := Option.bind_eq_some_iff.1 h
    obtain ⟨char, _, h⟩ := Option.bind_eq_some_iff.1 h
    have := length_lt_of_map (_ :: ·) ih h
    simp only [List.length_cons]
    omega
  | case3 c cs _ ih =>
    obtain ⟨char, _, h⟩ := Option.bind_eq_some_iff.1 h
    have := length_lt_of_map (_ :: ·) ih h
    simp only [List.length_cons]
    omega
  | case4 => cases h
  | case5 =>
    cases h
    simp
  | case6 => cases h
  | case7 c cs _ _ _ ih =>
    have := length_lt_of_map (_ :: ·) ih h
    simp only [List.length_cons]
    omega

theorem readQuoted_escapeSingleChar (c : Char) (rest : List Char) :
    readQuoted '\'' (escapeSingleChar c ++ rest)
      = (readQuoted '\'' rest).map fun read => (c :: read.1, read.2) := by
  unfold escapeSingleChar
  split
  · exact readQuoted_escaped rfl rest
  · exact readQuoted_escaped rfl rest
  · exact readQuoted_escaped rfl rest
  · exact readQuoted_escaped rfl rest
  · exact readQuoted_unit rfl rfl rest
  · exact readQuoted_unit rfl rfl rest
  next hb hq hn hr hl hp =>
    refine readQuoted_char hb hq ?_ rest
    simp only [isLineEnd, Bool.or_eq_false_iff, beq_eq_false_iff_ne]
    exact ⟨⟨⟨hn, hr⟩, hl⟩, hp⟩

/-- Between single quotes every text is read back whole, and what follows its closing quote is left:
no text ends its own quotes. -/
theorem readQuoted_singleQuoted (s : String) (rest : List Char) :
    readQuoted '\'' ((singleQuoted s).toList.tail ++ rest) = some (s.toList, rest) := by
  have hchars (cs : List Char) :
      readQuoted '\'' (cs.flatMap escapeSingleChar ++ '\'' :: rest) = some (cs, rest) := by
    induction cs with
    | nil => exact readQuoted_quote (by decide) rest
    | cons c cs ih =>
      rw [List.flatMap_cons, List.append_assoc, readQuoted_escapeSingleChar, ih]
      rfl
  have htail : (singleQuoted s).toList.tail = s.toList.flatMap escapeSingleChar ++ ['\''] := by
    simp [singleQuoted, escapeSingle]
  rw [htail, List.append_assoc]
  exact hchars s.toList

end SchemaTypes.Text
