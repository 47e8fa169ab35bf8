import SchemaTypes.Proofs.JsonText

/-! Whether a text spells a value can be checked where the text escapes no more than it has to. -/
namespace SchemaTypes.Json

/-- The digits of an integer, behind its sign. -/
def integerChars : Int → List Char
  | .ofNat n => Nat.toDigits 10 n
  | .negSucc n => '-' :: Nat.toDigits 10 (n + 1)

theorem integerText_integerChars (n : Int) : IntegerText n (integerChars n) := by
  cases n with
  | ofNat n => exact .natural n
  | negSucc n => exact .negative (Nat.succ_pos n)

theorem unitText_hexByte {n : Nat} (h : n < 0x20) : UnitText n ('0' :: '0' :: hexByte n) := by
  have hhigh : n / 16 < 16 := by omega
  have hlow : n % 16 < 16 := by omega
  refine ⟨0, 0, n / 16, n % 16, by omega, ?_⟩
  exact .cons ⟨by decide, .inl rfl⟩ (.cons ⟨by decide, .inl rfl⟩
    (.cons ⟨hhigh, .inl rfl⟩ (.cons ⟨hlow, .inl rfl⟩ .nil)))

/-- What is written between quotes is a text of the characters. -/
theorem stringText_escape (cs : List Char) : StringText cs (cs.flatMap escapeChar) := by
  induction cs with
  | nil => exact .nil
  | cons c cs ih =>
    rw [List.flatMap_cons]
    unfold escapeChar
    split
    case h_8 hquote hbackslash _ _ _ _ _ =>
      split
      next hcontrol =>
        have hunit := StringText.unit (unitText_hexByte hcontrol) (by omega) ih
        rwa [Char.ofNat_toNat] at hunit
      next hc => exact .raw (Nat.le_of_not_lt hc) hquote hbackslash ih
    all_goals exact .escape (by decide) ih

/-- The text of a token, if it has one. -/
def Token.chars? : Token → Option (List Char)
  | .openArray => some ['[']
  | .closeArray => some [']']
  | .openObject => some ['\x7b']
  | .closeObject => some ['\x7d']
  | .colon => some [':']
  | .comma => some [',']
  | .null => some ['n', 'u', 'l', 'l']
  | .bool true => some ['t', 'r', 'u', 'e']
  | .bool false => some ['f', 'a', 'l', 's', 'e']
  | .number (some (.int n)) =>
    if -2 ^ 63 ≤ n ∧ n < 2 ^ 64 then some (integerChars n) else none
  | .string (some s) => some ('"' :: s.toList.flatMap escapeChar ++ ['"'])
  | .number _ | .string none => none

theorem tokenText_of_chars? {token : Token} {text : List Char} (h : token.chars? = some text) :
    TokenText token text := by
  unfold Token.chars? at h
  split at h
  case h_10 n =>
    split at h
    next hbounds =>
      cases h
      exact .number (integerText_integerChars n) hbounds.1 hbounds.2
    next => cases h
  case h_12 => cases h
  case h_13 => cases h
  case h_11 s =>
    cases h
    exact .string (stringText_escape s.toList)
  all_goals
    cases h
    constructor

def isBlank (c : Char) : Bool := c == ' ' || c == '\t' || c == '\n' || c == '\r'

/-- The text is one of the tokens, with blanks anywhere between them. -/
def isTextOf : List Token → List Char → Bool
  | [], text => text.all isBlank
  | token :: tokens, text =>
    match token.chars? with
    | none => false
    | some chars =>
      let rest := text.dropWhile isBlank
      chars.isPrefixOf rest && isTextOf tokens (rest.drop chars.length)

theorem tokensText_of_isTextOf {tokens : List Token} {text : List Char}
    (h : isTextOf tokens text = true) : TokensText tokens text := by
  have hblank {c : Char} (hc : isBlank c = true) : c = ' ' ∨ c = '\t' ∨ c = '\n' ∨ c = '\r' := by
    simpa [isBlank, or_assoc] using hc
  induction tokens generalizing text with
  | nil => exact .nil fun c hc => hblank (List.all_eq_true.1 h c hc)
  | cons token tokens ih =>
    rw [isTextOf] at h
    split at h
    next => cases h
    next chars hchars =>
      obtain ⟨hfront, hrest⟩ := Bool.and_eq_true_iff.1 h
      obtain ⟨rest, heq⟩ := List.isPrefixOf_iff_prefix.1 hfront
      rw [← heq, List.drop_left] at hrest
      rw [← List.takeWhile_append_dropWhile (p := isBlank) (l := text), ← heq]
      refine .cons (fun c hc => hblank (List.mem_takeWhile_imp hc)) (tokenText_of_chars? hchars) ?_
      exact ih hrest

end SchemaTypes.Json

namespace SchemaTypes.Item

open Json (Token Spelled SpelledItems SpelledEntries)

mutual
/-- The tokens of a value, if it can be spelled. -/
def tokens? : Item → Option (List Token)
  | .null => some [.null]
  | .bool value => some [.bool value]
  | .number (.int n) => some [.number (some (.int n))]
  | .text s => some [.string (some s)]
  | .list [] => some [.openArray, .closeArray]
  | .list items => (itemTokens? items).map fun tokens => .openArray :: (tokens ++ [.closeArray])
  | .table [] => some [.openObject, .closeObject]
  | .table entries =>
    (entryTokens? entries).map fun tokens => .openObject :: (tokens ++ [.closeObject])
  | .number (.float _) | .notFinite | .unreadable => none

def itemTokens? : List Item → Option (List Token)
  | [] => none
  | [item] => tokens? item
  | item :: rest => do return (← tokens? item) ++ .comma :: (← itemTokens? rest)

def entryTokens? : List (Item × Item) → Option (List Token)
  | [(.text name, item)] => do return .string (some name) :: .colon :: (← tokens? item)
  | (.text name, item) :: rest => do
    return .string (some name) :: .colon :: ((← tokens? item) ++ .comma :: (← entryTokens? rest))
  | _ => none
end

mutual
theorem spelled_of_tokens? : ∀ {item : Item} {tokens : List Token}, item.tokens? = some tokens →
    Spelled item tokens
  | .null, _, h => by cases h; exact .null
  | .bool _, _, h => by cases h; exact .bool _
  | .number (.int _), _, h => by cases h; exact .number _
  | .text _, _, h => by cases h; exact .text _
  | .list [], _, h => by cases h; exact .emptyList
  | .list (item :: rest), _, h => by
    obtain ⟨tokens, htokens, rfl⟩ := Option.map_eq_some_iff.1 h
    exact .list (spelledItems_of_tokens? htokens)
  | .table [], _, h => by cases h; exact .emptyTable
  | .table (entry :: rest), _, h => by
    obtain ⟨tokens, htokens, rfl⟩ := Option.map_eq_some_iff.1 h
    exact .table (spelledEntries_of_tokens? htokens)
  | .number (.float _), _, h => by cases h
  | .notFinite, _, h => by cases h
  | .unreadable, _, h => by cases h

theorem spelledItems_of_tokens? : ∀ {items : List Item} {tokens : List Token},
    itemTokens? items = some tokens → SpelledItems items tokens
  | [], _, h => by cases h
  | [item], _, h => .last (spelled_of_tokens? h)
  | item :: next :: rest, _, h => by
    simp only [itemTokens?, Option.bind_eq_bind, Option.bind_eq_some_iff, Option.pure_def,
      Option.some.injEq] at h
    obtain ⟨tokens, htokens, more, hmore, rfl⟩ := h
    exact .cons (spelled_of_tokens? htokens) (spelledItems_of_tokens? hmore)

theorem spelledEntries_of_tokens? : ∀ {entries : List (Item × Item)} {tokens : List Token},
    entryTokens? entries = some tokens → SpelledEntries entries tokens
  | [(.text name, item)], _, h => by
    obtain ⟨tokens, htokens, heq⟩ := Option.bind_eq_some_iff.1 h
    cases heq
    exact .last (spelled_of_tokens? htokens)
  | (.text name, item) :: next :: rest, _, h => by
    simp only [entryTokens?, Option.bind_eq_bind, Option.bind_eq_some_iff, Option.pure_def,
      Option.some.injEq] at h
    obtain ⟨tokens, htokens, more, hmore, rfl⟩ := h
    exact .cons (spelled_of_tokens? htokens) (spelledEntries_of_tokens? hmore)
end

end SchemaTypes.Item

namespace SchemaTypes.Json

theorem spells_of_isTextOf {text : String} {item : Item} {tokens : List Token}
    (h : item.tokens? = some tokens) (htext : isTextOf tokens text.toList = true) :
    Spells text item :=
  ⟨tokens, Item.spelled_of_tokens? h, tokensText_of_isTextOf htext⟩

end SchemaTypes.Json
