import Mathlib
import SchemaTypes.Json.Reader
import SchemaTypes.Proofs.JsonString

/-! The texts that spell a value, by the grammar of RFC 8259: tokens with blanks anywhere between
them, strings with any of their escapes, and integers. Such a text reads as the value. -/
namespace SchemaTypes.Json

/-! ### The grammar -/

/-- The digits of an integer, with no zero in front of others. -/
inductive IntegerText : Int → List Char → Prop
  | natural (n : Nat) : IntegerText n (Nat.toDigits 10 n)
  | negative {n : Nat} (pos : 0 < n) : IntegerText (-n) ('-' :: Nat.toDigits 10 n)

/-- What a letter behind a backslash stands for. -/
def escapes : List (Char × Char) :=
  [('"', '"'), ('\\', '\\'), ('/', '/'), ('b', '\u0008'), ('f', '\u000c'), ('n', '\n'),
    ('r', '\r'), ('t', '\t')]

/-- A hexadecimal digit, in either case. -/
def HexDigit (c : Char) (value : Nat) : Prop :=
  value < 16 ∧ (c = Nat.digitChar value ∨ c = (Nat.digitChar value).toUpper)

/-- The four hexadecimal digits of a UTF-16 unit. -/
def UnitText (n : Nat) (digits : List Char) : Prop :=
  ∃ a b c d, n = ((a * 16 + b) * 16 + c) * 16 + d ∧ List.Forall₂ HexDigit digits [a, b, c, d]

/-- What stands between the quotes of a string. Every character may stand for itself, other than
quotes, backslashes and control characters; escapes of surrogates come in pairs. -/
inductive StringText : List Char → List Char → Prop
  | nil : StringText [] []
  | raw {c : Char} {cs text : List Char} (h : 0x20 ≤ c.toNat) (quote : c ≠ '"')
      (backslash : c ≠ '\\') (more : StringText cs text) : StringText (c :: cs) (c :: text)
  | escape {letter c : Char} {cs text : List Char} (h : (letter, c) ∈ escapes)
      (more : StringText cs text) : StringText (c :: cs) ('\\' :: letter :: text)
  | unit {n : Nat} {digits cs text : List Char} (h : UnitText n digits)
      (single : n < 0xD800 ∨ 0xE000 ≤ n) (more : StringText cs text) :
    StringText (Char.ofNat n :: cs) ('\\' :: 'u' :: (digits ++ text))
  | pair {high low : Nat} {digits others cs text : List Char}
      (first : UnitText high digits) (isHigh : 0xD800 ≤ high ∧ high < 0xDC00)
      (second : UnitText low others) (isLow : 0xDC00 ≤ low ∧ low < 0xE000)
      (more : StringText cs text) :
    StringText (Char.ofNat (0x10000 + (high - 0xD800) * 0x400 + (low - 0xDC00)) :: cs)
      ('\\' :: 'u' :: (digits ++ '\\' :: 'u' :: (others ++ text)))

/-- The text of a token. -/
inductive TokenText : Token → List Char → Prop
  | openArray : TokenText .openArray ['[']
  | closeArray : TokenText .closeArray [']']
  | openObject : TokenText .openObject ['\x7b']
  | closeObject : TokenText .closeObject ['\x7d']
  | colon : TokenText .colon [':']
  | comma : TokenText .comma [',']
  | null : TokenText .null ['n', 'u', 'l', 'l']
  | trueWord : TokenText (.bool true) ['t', 'r', 'u', 'e']
  | falseWord : TokenText (.bool false) ['f', 'a', 'l', 's', 'e']
  | number {n : Int} {text : List Char} (h : IntegerText n text) (least : -2 ^ 63 ≤ n)
      (most : n < 2 ^ 64) : TokenText (.number (some (.int n))) text
  | string {s : String} {text : List Char} (h : StringText s.toList text) :
    TokenText (.string (some s)) ('"' :: text ++ ['"'])

/-- The text of tokens, with any blanks in front of, between and behind them. -/
inductive TokensText : List Token → List Char → Prop
  | nil {blanks : List Char} (h : ∀ c ∈ blanks, c = ' ' ∨ c = '\t' ∨ c = '\n' ∨ c = '\r') :
    TokensText [] blanks
  | cons {token : Token} {tokens : List Token} {blanks text rest : List Char}
      (h : ∀ c ∈ blanks, c = ' ' ∨ c = '\t' ∨ c = '\n' ∨ c = '\r') (head : TokenText token text)
      (more : TokensText tokens rest) : TokensText (token :: tokens) (blanks ++ (text ++ rest))

mutual
/-- The tokens of a value. Its numbers are integers, and the keys of its tables texts. -/
inductive Spelled : Item → List Token → Prop
  | null : Spelled .null [.null]
  | bool (value : Bool) : Spelled (.bool value) [.bool value]
  | number (n : Int) : Spelled (.number (.int n)) [.number (some (.int n))]
  | text (s : String) : Spelled (.text s) [.string (some s)]
  | emptyList : Spelled (.list []) [.openArray, .closeArray]
  | list {items : List Item} {tokens : List Token} (h : SpelledItems items tokens) :
    Spelled (.list items) (.openArray :: (tokens ++ [.closeArray]))
  | emptyTable : Spelled (.table []) [.openObject, .closeObject]
  | table {entries : List (Item × Item)} {tokens : List Token} (h : SpelledEntries entries tokens) :
    Spelled (.table entries) (.openObject :: (tokens ++ [.closeObject]))

/-- One value or more, with commas between them. -/
inductive SpelledItems : List Item → List Token → Prop
  | last {item : Item} {tokens : List Token} (h : Spelled item tokens) :
    SpelledItems [item] tokens
  | cons {item : Item} {items : List Item} {tokens more : List Token} (h : Spelled item tokens)
      (rest : SpelledItems items more) :
    SpelledItems (item :: items) (tokens ++ .comma :: more)

/-- One entry or more, with commas between them. -/
inductive SpelledEntries : List (Item × Item) → List Token → Prop
  | last {name : String} {item : Item} {tokens : List Token} (h : Spelled item tokens) :
    SpelledEntries [(.text name, item)] (.string (some name) :: .colon :: tokens)
  | cons {name : String} {item : Item} {entries : List (Item × Item)} {tokens more : List Token}
      (h : Spelled item tokens) (rest : SpelledEntries entries more) :
    SpelledEntries ((.text name, item) :: entries)
      (.string (some name) :: .colon :: (tokens ++ .comma :: more))
end

/-- The text is one way to write the value. -/
def Spells (text : String) (item : Item) : Prop :=
  ∃ tokens, Spelled item tokens ∧ TokensText tokens text.toList

end SchemaTypes.Json

namespace SchemaTypes.Item

mutual
/-- How many lists and tables are open around the innermost value, this one included. -/
def depth : Item → Nat
  | .list items => depthOfItems items + 1
  | .table entries => depthOfEntries entries + 1
  | _ => 0

def depthOfItems : List Item → Nat
  | [] => 0
  | item :: rest => max (depth item) (depthOfItems rest)

def depthOfEntries : List (Item × Item) → Nat
  | [] => 0
  | (_, value) :: rest => max (depth value) (depthOfEntries rest)
end

end SchemaTypes.Item

namespace SchemaTypes.Json

/-! ### Strings -/

theorem simpleEscape?_of_mem {letter c : Char} (h : (letter, c) ∈ escapes) :
    simpleEscape? letter = some c := by
  have hall : ∀ entry ∈ escapes, simpleEscape? entry.1 = some entry.2 := by decide
  exact hall (letter, c) h

theorem hexDigit?_of_hexDigit {c : Char} {value : Nat} (h : HexDigit c value) :
    Text.hexDigit? c = some value := by
  have hall : ∀ value < 16, Text.hexDigit? (Nat.digitChar value) = some value
      ∧ Text.hexDigit? (Nat.digitChar value).toUpper = some value := by decide
  obtain ⟨hvalue, rfl | rfl⟩ := h
  · exact (hall value hvalue).1
  · exact (hall value hvalue).2

theorem hexUnit?_of_unitText {n : Nat} {digits : List Char} (h : UnitText n digits) :
    ∃ a b c d, digits = [a, b, c, d] ∧ hexUnit? a b c d = some n := by
  obtain ⟨a, b, c, d, rfl, hdigits⟩ := h
  rcases hdigits with _ | ⟨ha, _ | ⟨hb, _ | ⟨hc, _ | ⟨hd, ⟨⟩⟩⟩⟩⟩
  refine ⟨_, _, _, _, rfl, ?_⟩
  simp only [hexUnit?, hexDigit?_of_hexDigit ha, hexDigit?_of_hexDigit hb, hexDigit?_of_hexDigit hc,
    hexDigit?_of_hexDigit hd, Option.bind_eq_bind, Option.bind_some, Option.pure_def,
    Option.some.injEq]
  omega

/-- The text between the quotes is read piece by piece, and the pieces are its characters. -/
theorem stringPieces?_of_text {cs text : List Char} (h : StringText cs text) (rest : List Char) :
    ∃ pieces, (∀ acc, stringPieces? acc (text ++ '"' :: rest)
        = some (acc.reverse ++ pieces, rest))
      ∧ ∀ acc, joinPieces? acc pieces = some (acc.reverse ++ cs) := by
  induction h with
  | nil => exact ⟨[], fun acc => by simp [stringPieces?], fun acc => by simp [joinPieces?]⟩
  | @raw c cs text h quote backslash _ ih =>
    obtain ⟨pieces, hread, hjoin⟩ := ih
    refine ⟨.char c :: pieces, fun acc => ?_, fun acc => ?_⟩
    · rw [List.cons_append, stringPieces?_char quote backslash (Nat.not_lt.2 h), hread]
      simp
    · rw [joinPieces?, hjoin]
      simp
  | @escape letter c cs text h _ ih =>
    obtain ⟨pieces, hread, hjoin⟩ := ih
    have hletter := simpleEscape?_of_mem h
    refine ⟨.char c :: pieces, fun acc => ?_, fun acc => ?_⟩
    · have hu : letter ≠ 'u' := by
        rintro rfl
        simp [simpleEscape?] at hletter
      rw [List.cons_append, List.cons_append, stringPieces?, hletter]
      · show stringPieces? (.char c :: acc) (text ++ '"' :: rest) = _
        rw [hread]
        simp
      · simp [hu]
    · rw [joinPieces?, hjoin]
      simp
  | @unit n digits cs text h single _ ih =>
    obtain ⟨pieces, hread, hjoin⟩ := ih
    obtain ⟨a, b, c, d, rfl, hunit⟩ := hexUnit?_of_unitText h
    refine ⟨.unit n :: pieces, fun acc => ?_, fun acc => ?_⟩
    · simp only [List.cons_append, List.nil_append, stringPieces?, hunit, hread]
      simp
    · rw [joinPieces?_unit single, hjoin]
      simp
  | @pair high low digits others cs text first isHigh second isLow _ ih =>
    obtain ⟨pieces, hread, hjoin⟩ := ih
    obtain ⟨a, b, c, d, rfl, hfirst⟩ := hexUnit?_of_unitText first
    obtain ⟨e, f, g, i, rfl, hsecond⟩ := hexUnit?_of_unitText second
    refine ⟨.unit high :: .unit low :: pieces, fun acc => ?_, fun acc => ?_⟩
    · simp only [List.cons_append, List.nil_append, stringPieces?, hfirst, hsecond, hread]
      simp
    · rw [joinPieces?, if_pos isHigh, if_pos isLow, hjoin]
      simp

/-! ### Numbers -/

/-- The digits of a number, as they are read. -/
structure Numeral (n : Nat) (digits : List Char) : Prop where
  ne_nil : digits ≠ []
  isDigit : ∀ c ∈ digits, c.isDigit = true
  plain : digits.head? = some '0' → digits = ['0']
  value : Text.digitsValue digits = n

theorem head?_toDigits {n : Nat} (pos : 0 < n) : (Nat.toDigits 10 n).head? ≠ some '0' := by
  induction n using Nat.strongRecOn with
  | ind n ih =>
    have hdigit : ∀ n < 10, 0 < n → [Nat.digitChar n].head? ≠ some '0' := by decide
    rw [Nat.toDigits_eq_if (by decide)]
    split
    next hlt => exact hdigit n hlt pos
    next hle =>
      obtain ⟨c, cs, hcs⟩ := List.exists_cons_of_ne_nil (@Nat.toDigits_ne_nil (n / 10) 10)
      have habove := ih (n / 10) (by omega) (by omega)
      rwa [hcs] at habove ⊢

theorem numeral_toDigits (n : Nat) : Numeral n (Nat.toDigits 10 n) where
  ne_nil := Nat.toDigits_ne_nil
  isDigit _ := Nat.isDigit_of_mem_toDigits (by decide) (by decide)
  plain h := by
    rcases Nat.eq_zero_or_pos n with rfl | pos
    · rfl
    · exact absurd h (head?_toDigits pos)
  value := by
    have hfold := @Nat.ofDigitChars_toDigits 10 n (by decide) (by decide)
    simpa [Nat.ofDigitChars, Text.digitsValue, Nat.mul_comm] using hfold

theorem spanDigits_append {digits rest : List Char} (h : ∀ c ∈ digits, c.isDigit = true)
    (hrest : ∀ c ∈ rest.head?, c.isDigit = false) :
    spanDigits (digits ++ rest) = (digits, rest) := by
  have hloop (acc : List Char) : List.span.loop Char.isDigit (digits ++ rest) acc
      = (acc.reverse ++ digits, rest) := by
    induction digits generalizing acc with
    | nil =>
      cases rest with
      | nil => simp [List.span.loop]
      | cons c rest => simp [List.span.loop, hrest c rfl]
    | cons c digits ih =>
      obtain ⟨hc, hdigits⟩ := List.forall_mem_cons.1 h
      simp [List.span.loop, hc, ih hdigits]
  exact hloop []

theorem le_foldl_digits (acc : Nat) (digits : List Char) :
    acc ≤ digits.foldl (fun n c => n * 10 + (c.toNat - '0'.toNat)) acc := by
  induction digits generalizing acc with
  | nil => exact Nat.le_refl acc
  | cons c rest ih =>
    have hnext := ih (acc * 10 + (c.toNat - '0'.toNat))
    rw [List.foldl_cons]
    omega

/-- Digits of a number that has 64 bits are all kept. -/
theorem significand_eq {acc : Nat} {digits : List Char}
    (h : digits.foldl (fun n c => n * 10 + (c.toNat - '0'.toNat)) acc < 2 ^ 64) :
    significand acc digits
      = (digits.foldl (fun n c => n * 10 + (c.toNat - '0'.toNat)) acc, []) := by
  induction digits generalizing acc with
  | nil => rfl
  | cons c rest ih =>
    rw [List.foldl_cons] at h
    have hnext := le_foldl_digits (acc * 10 + (c.toNat - '0'.toNat)) rest
    have hfits : ¬Nat.pow 2 64 ≤ acc * 10 + (c.toNat - '0'.toNat) := by
      show ¬2 ^ 64 ≤ _
      omega
    rw [significand, if_neg hfits, ih h, List.foldl_cons]

theorem Numeral.significand {n : Nat} {digits : List Char} (h : Numeral n digits)
    (fits : n < 2 ^ 64) : significand 0 digits = (n, []) := by
  have hvalue : digits.foldl (fun n c => n * 10 + (c.toNat - '0'.toNat)) 0 = n := h.value
  rw [← hvalue] at fits ⊢
  exact significand_eq fits

/-- What may stand behind a number. -/
def EndsNumber (rest : List Char) : Prop :=
  ∀ c ∈ rest.head?, c.isDigit = false ∧ c ≠ '.' ∧ c ≠ 'e' ∧ c ≠ 'E'

theorem fraction?_of_endsNumber {rest : List Char} (h : EndsNumber rest) :
    fraction? rest = some (none, rest) := by
  unfold fraction?
  split
  · exact absurd rfl (h '.' rfl).2.1
  · rfl

theorem exponent?_of_endsNumber {rest : List Char} (h : EndsNumber rest) :
    exponent? rest = some (none, rest) := by
  cases rest with
  | nil => rfl
  | cons c rest =>
    obtain ⟨-, -, he, hE⟩ := h c rfl
    have hnone : ¬(c = 'e' ∨ c = 'E') := by simp [he, hE]
    unfold exponent?
    exact if_neg hnone

theorem numberParts?_of_numeral {n : Nat} {digits rest : List Char} (h : Numeral n digits)
    (hrest : EndsNumber rest) :
    numberParts? (digits ++ rest) = some (⟨false, digits, none, none⟩, rest)
    ∧ numberParts? ('-' :: (digits ++ rest)) = some (⟨true, digits, none, none⟩, rest) := by
  have hspan := spanDigits_append h.isDigit fun c hc => (hrest c hc).1
  obtain ⟨d, more, rfl⟩ := List.exists_cons_of_ne_nil h.ne_nil
  have hdigit : d.isDigit = true := h.isDigit d List.mem_cons_self
  have hplain : d = '0' → more = [] := by
    rintro rfl
    simpa using h.plain rfl
  have hminus : d ≠ '-' := by
    rintro rfl
    simp at hdigit
  have hfraction := fraction?_of_endsNumber hrest
  have hexponent := exponent?_of_endsNumber hrest
  rw [List.cons_append] at hspan
  by_cases hzero : d = '0'
  · obtain rfl := hplain hzero
    subst hzero
    rw [List.nil_append] at hspan
    constructor <;> simp [numberParts?, hspan, hfraction, hexponent]
  · constructor <;> simp [numberParts?, hminus, hzero, hspan, hfraction, hexponent]

/-- An integer of at most 64 bits keeps its value. -/
theorem numberParts?_of_integer {n : Int} {text rest : List Char} (h : IntegerText n text)
    (least : -2 ^ 63 ≤ n) (most : n < 2 ^ 64) (hrest : EndsNumber rest) :
    ∃ parts, numberParts? (text ++ rest) = some (parts, rest)
      ∧ parts.value? = some (.int n) := by
  cases h with
  | natural m =>
    have h := numeral_toDigits m
    have hkept := h.significand (by omega)
    refine ⟨_, (numberParts?_of_numeral h hrest).1, ?_⟩
    simp [NumberParts.value?, hkept]
  | @negative m pos =>
    have h := numeral_toDigits m
    have hkept := h.significand (by omega)
    have hfits : ¬(m = 0 ∨ Nat.pow 2 63 < m) := by
      show ¬(m = 0 ∨ 2 ^ 63 < m)
      omega
    refine ⟨_, (numberParts?_of_numeral h hrest).2, ?_⟩
    simp only [NumberParts.value?, hkept]
    simp [hfits]

/-! ### Tokens -/

theorem token?_number {c : Char} (cs : List Char) (h : c.isDigit = true ∨ c = '-') :
    token? (c :: cs)
      = (numberParts? (c :: cs)).map fun (parts, rest) => (.number parts.value?, rest) := by
  unfold token?
  split <;> first
    | rfl
    | (rename_i heq; cases heq; simp at h)

/-- The first character of an integer. -/
theorem IntegerText.head {n : Int} {text : List Char} (h : IntegerText n text) :
    ∃ c cs, text = c :: cs ∧ (c.isDigit = true ∨ c = '-') := by
  cases h with
  | natural n =>
    obtain ⟨c, cs, hcs⟩ := List.exists_cons_of_ne_nil (numeral_toDigits n).ne_nil
    have hdigit := (numeral_toDigits n).isDigit c (hcs ▸ List.mem_cons_self)
    exact ⟨c, cs, hcs, .inl hdigit⟩
  | negative pos => exact ⟨'-', _, rfl, .inr rfl⟩

def Token.isNumber : Token → Bool
  | .number _ => true
  | _ => false

theorem token?_of_text {token : Token} {text rest : List Char} (h : TokenText token text)
    (hrest : token.isNumber → EndsNumber rest) : token? (text ++ rest) = some (token, rest) := by
  cases h with
  | number h least most =>
    obtain ⟨parts, hparts, hvalue⟩ := numberParts?_of_integer h least most (hrest rfl)
    obtain ⟨c, cs, rfl, hc⟩ := h.head
    rw [List.cons_append] at hparts ⊢
    rw [token?_number _ hc, hparts, ← hvalue]
    rfl
  | @string s text h =>
    obtain ⟨pieces, hread, hjoin⟩ := stringPieces?_of_text h rest
    have hpieces := hread []
    have hcs := hjoin []
    rw [List.reverse_nil, List.nil_append] at hpieces hcs
    have htext : '"' :: text ++ ['"'] ++ rest = '"' :: (text ++ '"' :: rest) := by simp
    rw [htext, token?, hpieces]
    simp [hcs]
  | openArray | closeArray | openObject | closeObject | colon | comma | null | trueWord | falseWord => rfl

/-- The first character of a token, which is no blank. -/
theorem TokenText.head {token : Token} {text : List Char} (h : TokenText token text) :
    ∃ c cs, text = c :: cs ∧ isSpace c = false
      ∧ (token.isNumber = false → c.isDigit = false ∧ c ≠ '.' ∧ c ≠ 'e' ∧ c ≠ 'E') := by
  cases h with
  | number h least most =>
    obtain ⟨c, cs, rfl, hc⟩ := h.head
    refine ⟨c, cs, rfl, ?_, fun hn => by cases hn⟩
    cases hspace : isSpace c with
    | false => rfl
    | true =>
      have hblank : ((c = ' ' ∨ c = '\n') ∨ c = '\t') ∨ c = '\r' := by simpa [isSpace] using hspace
      rcases hblank with ((rfl | rfl) | rfl) | rfl <;> simp at hc
  | string h => exact ⟨'"', _, rfl, rfl, fun _ => by decide⟩
  | openArray | closeArray | openObject | closeObject | colon | comma | null | trueWord | falseWord =>
    exact ⟨_, _, rfl, by decide⟩

theorem isSpace_of_blank {c : Char} (h : c = ' ' ∨ c = '\t' ∨ c = '\n' ∨ c = '\r') :
    isSpace c = true := by
  rcases h with rfl | rfl | rfl | rfl <;> rfl

/-- Two numbers do not stand side by side. -/
def Apart (token next : Token) : Prop := token.isNumber = false ∨ next.isNumber = false

theorem TokensText.endsNumber {tokens : List Token} {text : List Char} (h : TokensText tokens text)
    (hnext : ∀ token ∈ tokens.head?, token.isNumber = false) : EndsNumber text := by
  have hblank {c : Char} (hc : c = ' ' ∨ c = '\t' ∨ c = '\n' ∨ c = '\r') :
      c.isDigit = false ∧ c ≠ '.' ∧ c ≠ 'e' ∧ c ≠ 'E' := by
    rcases hc with rfl | rfl | rfl | rfl <;> decide
  intro c hc
  cases h with
  | nil hblanks => exact hblank (hblanks c (List.mem_of_mem_head? hc))
  | @cons token tokens blanks text rest hblanks head more =>
    cases blanks with
    | cons blank blanks =>
      obtain rfl : blank = c := by simpa using hc
      exact hblank (hblanks blank List.mem_cons_self)
    | nil =>
      obtain ⟨first, cs, rfl, -, hfirst⟩ := head.head
      obtain rfl : first = c := by simpa using hc
      exact hfirst (hnext token rfl)

theorem dropWhile_blanks {blanks rest : List Char}
    (h : ∀ c ∈ blanks, c = ' ' ∨ c = '\t' ∨ c = '\n' ∨ c = '\r') :
    (blanks ++ rest).dropWhile isSpace = rest.dropWhile isSpace :=
  List.dropWhile_append_of_pos fun c hc => isSpace_of_blank (h c hc)

/-- A text is cut into its tokens. -/
theorem tokensFrom?_of_text {tokens : List Token} {text : List Char} (h : TokensText tokens text)
    (apart : tokens.IsChain Apart) (acc : List Token) {fuel : Nat} (hf : tokens.length ≤ fuel) :
    tokensFrom? acc fuel text = some (acc.reverse ++ tokens) := by
  induction h generalizing acc fuel with
  | @nil blanks h =>
    have hdrop := @dropWhile_blanks _ [] h
    rw [List.append_nil] at hdrop
    cases fuel <;> simp [tokensFrom?, hdrop]
  | @cons token tokens blanks text rest h head more ih =>
    cases fuel with
    | zero => simp at hf
    | succ fuel =>
      obtain ⟨c, cs, rfl, hspace, -⟩ := head.head
      have hdrop : (blanks ++ (c :: cs ++ rest)).dropWhile isSpace = c :: cs ++ rest := by
        rw [dropWhile_blanks h, List.cons_append, List.dropWhile_cons_of_neg (by simp [hspace])]
      have htoken : token? (c :: cs ++ rest) = some (token, rest) := by
        apply token?_of_text head
        -- A number ends with its text: what follows is no number, so it has no digit in front.
        intro hnumber
        apply more.endsNumber
        intro next hnext
        cases tokens with
        | nil => cases hnext
        | cons first others =>
          obtain rfl : first = next := by simpa using hnext
          have hapart := (List.isChain_cons_cons.1 apart).1
          rw [Apart, hnumber] at hapart
          simpa using hapart
      have hlast := ih apart.tail (token :: acc) (Nat.le_of_succ_le_succ hf)
      rw [tokensFrom?, hdrop]
      dsimp only [List.cons_append]
      rw [← List.cons_append, htoken]
      simp [hlast]

/-! ### Values -/

theorem spelled_ne_nil {item : Item} {tokens : List Token} (h : Spelled item tokens) :
    ∃ token rest, tokens = token :: rest ∧ token ≠ .closeArray := by
  cases h <;> exact ⟨_, _, rfl, by simp⟩

theorem isChain_cons {token : Token} {rest : List Token} (h : token.isNumber = false)
    (hrest : rest.IsChain Apart) : (token :: rest).IsChain Apart := by
  cases rest with
  | nil => exact .singleton token
  | cons next rest => exact List.isChain_cons_cons.2 ⟨.inl h, hrest⟩

mutual
/-- Behind a number there is a comma, the end of a list or table, or nothing. -/
theorem isChain_spelled : ∀ {item : Item} {tokens rest : List Token}, Spelled item tokens →
    (∀ token ∈ rest.head?, token.isNumber = false) → rest.IsChain Apart →
    (tokens ++ rest).IsChain Apart
  | _, _, _, .null, _, hrest => isChain_cons rfl hrest
  | _, _, _, .bool _, _, hrest => isChain_cons rfl hrest
  | _, _, _, .text _, _, hrest => isChain_cons rfl hrest
  | _, _, [], .number _, _, _ => .singleton _
  | _, _, next :: rest, .number _, hnext, hrest =>
    List.isChain_cons_cons.2 ⟨.inr (hnext next rfl), hrest⟩
  | _, _, _, .emptyList, _, hrest => isChain_cons rfl (isChain_cons rfl hrest)
  | _, _, _, .emptyTable, _, hrest => isChain_cons rfl (isChain_cons rfl hrest)
  | _, _, rest, .list h, _, hrest => by
    have hitems := @isChain_items _ _ (.closeArray :: rest) h (by simp [Token.isNumber])
      (isChain_cons rfl hrest)
    rw [List.cons_append, List.append_assoc]
    exact isChain_cons rfl hitems
  | _, _, rest, .table h, _, hrest => by
    have hentries := @isChain_entries _ _ (.closeObject :: rest) h (by simp [Token.isNumber])
      (isChain_cons rfl hrest)
    rw [List.cons_append, List.append_assoc]
    exact isChain_cons rfl hentries

theorem isChain_items : ∀ {items : List Item} {tokens rest : List Token},
    SpelledItems items tokens → (∀ token ∈ rest.head?, token.isNumber = false) →
    rest.IsChain Apart → (tokens ++ rest).IsChain Apart
  | _, _, _, .last h, hnext, hrest => isChain_spelled h hnext hrest
  | _, _, rest, .cons h others, hnext, hrest => by
    have hothers := isChain_items others hnext hrest
    rw [List.append_assoc]
    exact isChain_spelled h (by simp [Token.isNumber]) (isChain_cons rfl hothers)

theorem isChain_entries : ∀ {entries : List (Item × Item)} {tokens rest : List Token},
    SpelledEntries entries tokens → (∀ token ∈ rest.head?, token.isNumber = false) →
    rest.IsChain Apart → (tokens ++ rest).IsChain Apart
  | _, _, _, .last h, hnext, hrest =>
    isChain_cons rfl (isChain_cons rfl (isChain_spelled h hnext hrest))
  | _, _, rest, .cons h others, hnext, hrest => by
    have hothers := isChain_entries others hnext hrest
    rw [List.cons_append, List.cons_append, List.append_assoc]
    have hcomma : (Token.comma :: (_ ++ rest)).IsChain Apart := isChain_cons rfl hothers
    exact isChain_cons rfl (isChain_cons rfl (isChain_spelled h (by simp [Token.isNumber]) hcomma))
end

/-- What is closed within the bound on open containers is kept. -/
theorem closed_of_length {stack : List Frame} (h : stack.length < maxDepth) (item : Item) :
    closed stack item = item := by
  have hdrop : stack.drop (maxDepth - 1) = [] := by
    apply List.drop_eq_nil_of_le
    unfold maxDepth at *
    omega
  rw [closed, hdrop]
  rfl

/-- Where a list may end, the first of its values may stand. -/
theorem build?_items_start {items : List Item} {tokens : List Token} (h : SpelledItems items tokens)
    (stack : List Frame) (rest : List Token) :
    build? .itemOrClose stack (tokens ++ rest) = build? .value stack (tokens ++ rest) := by
  have hfirst : ∃ token others, tokens = token :: others ∧ token ≠ .closeArray := by
    cases h with
    | last h => exact spelled_ne_nil h
    | cons h others =>
      obtain ⟨token, more, rfl, hopen⟩ := spelled_ne_nil h
      exact ⟨token, _, rfl, hopen⟩
  obtain ⟨token, others, rfl, hopen⟩ := hfirst
  cases token <;> first
    | contradiction
    | rfl

/-- Where a table may end, the first of its names may stand. -/
theorem build?_entries_start {entries : List (Item × Item)} {tokens : List Token}
    (h : SpelledEntries entries tokens) (stack : List Frame) (rest : List Token) :
    build? .nameOrClose stack (tokens ++ rest) = build? (.name []) stack (tokens ++ rest) := by
  cases h <;> rfl

mutual
/-- The tokens of a value are read as the value, if it is not too deep inside what is open. -/
theorem build?_spelled : ∀ {item : Item} {tokens : List Token} (stack : List Frame)
    (rest : List Token), Spelled item tokens → stack.length + item.depth ≤ maxDepth →
    build? .value stack (tokens ++ rest) = build? (.after item) stack rest
  | _, _, _, _, .null, _ => rfl
  | _, _, _, _, .bool _, _ => rfl
  | _, _, _, _, .number _, _ => rfl
  | _, _, _, _, .text _, _ => rfl
  | _, _, stack, rest, .emptyList, hdepth => by
    have hclosed : closed stack (.list []) = .list [] :=
      closed_of_length (by simp [Item.depth] at hdepth; omega) _
    show build? (.after (closed stack (.list []))) stack rest = _
    rw [hclosed]
  | _, _, stack, rest, .emptyTable, hdepth => by
    have hclosed : closed stack (.table []) = .table [] :=
      closed_of_length (by simp [Item.depth] at hdepth; omega) _
    show build? (.after (closed stack (.table []))) stack rest = _
    rw [hclosed]
  | _, _, stack, rest, .list h, hdepth => by
    have hitems := build?_items [] stack rest h (by simp [Item.depth] at hdepth; omega)
    rw [List.cons_append, List.append_assoc]
    show build? .itemOrClose (.list [] :: stack) _ = _
    rw [build?_items_start h]
    exact hitems
  | _, _, stack, rest, .table h, hdepth => by
    have hentries := build?_entries [] stack rest h (by simp [Item.depth] at hdepth; omega)
    rw [List.cons_append, List.append_assoc]
    show build? .nameOrClose stack _ = _
    rw [build?_entries_start h]
    exact hentries

/-- The values of a list are read one after the other behind those that are there. -/
theorem build?_items : ∀ {items : List Item} {tokens : List Token} (done : List Item)
    (stack : List Frame) (rest : List Token), SpelledItems items tokens →
    stack.length + 1 + Item.depthOfItems items ≤ maxDepth →
    build? .value (.list done :: stack) (tokens ++ .closeArray :: rest)
      = build? (.after (.list (done.reverse ++ items))) stack rest
  | _, _, done, stack, rest, .last h, hdepth => by
    simp only [Item.depthOfItems] at hdepth
    rw [build?_spelled (.list done :: stack) _ h (by simp; omega)]
    show build? (.after (closed stack _)) stack rest = _
    rw [closed_of_length (by omega), List.reverse_cons]
  | _, _, done, stack, rest, @SpelledItems.cons item _ _ _ h others, hdepth => by
    simp only [Item.depthOfItems] at hdepth
    have hothers := build?_items (item :: done) stack rest others (by omega)
    rw [List.append_assoc, build?_spelled (.list done :: stack) _ h (by simp; omega)]
    refine hothers.trans ?_
    simp

theorem build?_entries : ∀ {entries : List (Item × Item)} {tokens : List Token}
    (done : List (Item × Item)) (stack : List Frame) (rest : List Token),
    SpelledEntries entries tokens → stack.length + 1 + Item.depthOfEntries entries ≤ maxDepth →
    build? (.name done) stack (tokens ++ .closeObject :: rest)
      = build? (.after (.table (done.reverse ++ entries))) stack rest
  | _, _, done, stack, rest, @SpelledEntries.last name _ tokens h, hdepth => by
    simp only [Item.depthOfEntries] at hdepth
    show build? .value (.table done (.text name) :: stack) (tokens ++ .closeObject :: rest) = _
    rw [build?_spelled (.table done (.text name) :: stack) _ h (by simp; omega)]
    show build? (.after (closed stack _)) stack rest = _
    rw [closed_of_length (by omega), List.reverse_cons]
  | _, _, done, stack, rest, @SpelledEntries.cons name item _ tokens more h others, hdepth => by
    simp only [Item.depthOfEntries] at hdepth
    have hothers := build?_entries ((.text name, item) :: done) stack rest others (by omega)
    show build? .value (.table done (.text name) :: stack)
      (tokens ++ .comma :: more ++ .closeObject :: rest) = _
    rw [List.append_assoc, build?_spelled (.table done (.text name) :: stack) _ h (by simp; omega)]
    refine hothers.trans ?_
    simp
end

mutual
theorem isReadable_spelled : ∀ {item : Item} {tokens : List Token}, Spelled item tokens →
    item.isReadable = true
  | _, _, .null => rfl
  | _, _, .bool _ => rfl
  | _, _, .number _ => rfl
  | _, _, .text _ => rfl
  | _, _, .emptyList => rfl
  | _, _, .emptyTable => rfl
  | _, _, .list h => areReadable_spelled h
  | _, _, .table h => entriesReadable_spelled h

theorem areReadable_spelled : ∀ {items : List Item} {tokens : List Token},
    SpelledItems items tokens → Item.areReadable items = true
  | _, _, .last h => by simp [Item.areReadable, isReadable_spelled h]
  | _, _, .cons h others => by
    simp [Item.areReadable, isReadable_spelled h, areReadable_spelled others]

theorem entriesReadable_spelled : ∀ {entries : List (Item × Item)} {tokens : List Token},
    SpelledEntries entries tokens → Item.entriesReadable entries = true
  | _, _, .last h => by simp [Item.entriesReadable, Item.isReadable, isReadable_spelled h]
  | _, _, .cons h others => by
    simp [Item.entriesReadable, Item.isReadable, isReadable_spelled h, entriesReadable_spelled others]
end

theorem isReadable_of_spells {text : String} {item : Item} (h : Spells text item) :
    item.isReadable = true := by
  obtain ⟨tokens, hspelled, -⟩ := h
  exact isReadable_spelled hspelled

theorem length_le_of_text {tokens : List Token} {text : List Char} (h : TokensText tokens text) :
    tokens.length ≤ text.length := by
  induction h with
  | nil => exact Nat.zero_le _
  | cons h head more ih =>
    obtain ⟨c, cs, rfl, -⟩ := head.head
    simp only [List.length_cons, List.length_append]
    omega

/-- Every text of a value is read as the value, if no more containers are open in it at once than
may be. -/
theorem item?_of_spells {text : String} {item : Item} (h : Spells text item)
    (hdepth : item.depth ≤ maxDepth) : item? text = some item := by
  obtain ⟨tokens, hspelled, htext⟩ := h
  have hchain := @isChain_spelled _ _ [] hspelled (by simp) .nil
  rw [List.append_nil] at hchain
  have htokens : tokens? text = some tokens :=
    tokensFrom?_of_text htext hchain [] (length_le_of_text htext)
  have hbuild := build?_spelled [] [] hspelled (by simpa using hdepth)
  rw [List.append_nil] at hbuild
  rw [item?, htokens]
  exact hbuild

end SchemaTypes.Json
