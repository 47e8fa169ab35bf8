import SchemaTypes.Node.References

/-! Escapes in JSON pointers: the two replacements that undo them are one pass over the text, and a
pointer to a definition names the definition. -/
namespace SchemaTypes

namespace Text

theorem replacePair_cons_of_ne {a b c : Char} (h : c ≠ a) (new cs : List Char) :
    replacePair a b new (c :: cs) = c :: replacePair a b new cs := by
  cases cs with
  | nil => rfl
  | cons d rest => rw [replacePair, if_neg (mt And.left h)]

theorem replacePair_cons_of_head? {a b c : Char} {new cs : List Char} (h : cs.head? ≠ some b) :
    replacePair a b new (c :: cs) = c :: replacePair a b new cs := by
  cases cs with
  | nil => rfl
  | cons d rest =>
    have hd : d ≠ b := fun heq => h (congrArg some heq)
    rw [replacePair, if_neg (mt And.right hd)]

theorem replacePair_pair (a b : Char) (new rest : List Char) :
    replacePair a b new (a :: b :: rest) = new ++ replacePair a b new rest := by
  rw [replacePair, if_pos ⟨rfl, rfl⟩]

/-- The first character stays, or it is the first one of a replacement. -/
theorem head?_replacePair_cons (a b d : Char) (new cs : List Char) :
    (replacePair a b (d :: new) cs).head? = cs.head?
      ∨ (replacePair a b (d :: new) cs).head? = some d := by
  fun_cases replacePair a b (d :: new) cs with
  | case1 => exact .inl rfl
  | case2 => exact .inl rfl
  | case3 => exact .inr rfl
  | case4 => exact .inl rfl

end Text

namespace Pointer

open Text (replacePair replacePair_cons_of_ne replacePair_cons_of_head? replacePair_pair
  head?_replacePair_cons)

def escapeChar : Char → List Char
  | '~' => ['~', '0']
  | '/' => ['~', '1']
  | c => [c]

def escape (cs : List Char) : List Char := cs.flatMap escapeChar

/-- Reads the escapes in one pass; a tilde in front of anything else stays. -/
def decode : List Char → List Char
  | [] => []
  | '~' :: '1' :: rest => '/' :: decode rest
  | '~' :: '0' :: rest => '~' :: decode rest
  | c :: rest => c :: decode rest

/-- No replacement reads what the other one wrote. -/
theorem unescape_eq_decode (cs : List Char) : unescape cs = decode cs := by
  have hslash : '/' ≠ '~' := by decide
  have hzero : '0' ≠ '~' := by decide
  unfold unescape
  fun_induction decode cs with
  | case1 => rfl
  | case2 rest ih =>
    rw [replacePair_pair, List.singleton_append, replacePair_cons_of_ne hslash, ih]
  | case3 rest ih =>
    rw [replacePair_cons_of_head? (by simp), replacePair_cons_of_ne hzero, replacePair_pair,
      List.singleton_append, ih]
  | case4 c rest hone hnaught ih =>
    by_cases hc : c = '~'
    · subst hc
      have hfirst : rest.head? ≠ some '1' := by
        intro hhead
        obtain ⟨tail, rfl⟩ := List.head?_eq_some_iff.1 hhead
        exact hone tail rfl rfl
      have hbehind : (replacePair '~' '1' ['/'] rest).head? ≠ some '0' := by
        intro hhead
        rcases head?_replacePair_cons '~' '1' '/' [] rest with hsame | hnew
        · rw [hsame] at hhead
          obtain ⟨tail, rfl⟩ := List.head?_eq_some_iff.1 hhead
          exact hnaught tail rfl rfl
        · rw [hnew] at hhead
          cases hhead
      rw [replacePair_cons_of_head? hfirst, replacePair_cons_of_head? hbehind, ih]
    · rw [replacePair_cons_of_ne hc, replacePair_cons_of_ne hc, ih]

/-- What an escape stands for is not read again, whatever follows it. -/
theorem decode_escape_append (cs rest : List Char) :
    decode (escape cs ++ rest) = cs ++ decode rest := by
  induction cs with
  | nil => rfl
  | cons c cs ih =>
    rw [escape, List.flatMap_cons, ← escape, List.append_assoc]
    unfold escapeChar
    split
    · rw [List.cons_append, List.singleton_append, decode, ih, List.cons_append]
    · rw [List.cons_append, List.singleton_append, decode, ih, List.cons_append]
    next htilde _ =>
      have hc : c ≠ '~' := htilde
      rw [List.singleton_append, decode, ih, List.cons_append]
      · exact fun _ h _ => hc h
      · exact fun _ h _ => hc h

theorem decode_escape (cs : List Char) : decode (escape cs) = cs := by
  simpa [decode] using decode_escape_append cs []

/-- The pointer to the definition with this name. -/
def ofDefinition (name : String) : String :=
  "#/definitions/" ++ String.ofList (escape name.toList)

theorem afterStart?_append (start cs : List Char) : afterStart? start (start ++ cs) = some cs := by
  induction start with
  | nil => rfl
  | cons c start ih => rw [List.cons_append, afterStart?, if_pos rfl, ih]

theorem afterStart?_eq_none_iff {start cs : List Char} :
    afterStart? start cs = none ↔ ¬start <+: cs := by
  fun_induction afterStart? start cs with
  | case1 => simp
  | case2 => simp
  | case3 start c cs ih => simp [ih]
  | case4 c start d cs h => simp [h]

theorem definition?_ofDefinition (name : String) :
    definition? (ofDefinition name) = some name := by
  have hchars : (ofDefinition name).toList = definitionsRoot ++ escape name.toList := by
    unfold ofDefinition definitionsRoot
    exact String.toList_append.trans (congrArg _ String.toList_ofList)
  rw [definition?, hchars, afterStart?_append, Option.map_some, unescape_eq_decode, decode_escape,
    String.ofList_toList]

/-- The name that is looked up for a pointer to a definition is that of the definition. -/
theorem name_ofDefinition (key : String) : name (ofDefinition key) = pure key := by
  unfold name
  rw [definition?_ofDefinition]

theorem name_eq (pointer : String) :
    name pointer = if definitionsRoot <+: pointer.toList then
        pure (String.ofList (decode (pointer.toList.drop definitionsRoot.length)))
      else ⟨pointer, [.foreignPointer pointer]⟩ := by
  unfold name definition?
  by_cases h : definitionsRoot <+: pointer.toList
  · rw [if_pos h]
    obtain ⟨escaped, hchars⟩ := h
    rw [← hchars, afterStart?_append, Option.map_some, unescape_eq_decode, List.drop_left]
  · rw [if_neg h, afterStart?_eq_none_iff.2 h, Option.map_none]
    rfl

/-- A pointer is read in one pass. Behind the start of a pointer to a definition stands the name,
with the escapes that `decode` reads, and nothing is said about it; any other pointer is the name
itself, and is noted. What an escape stands for is never read again, and so the pointer to a
definition leads back to its name. -/
theorem pointer_is_read_in_one_pass (pointer key : String) (rest : List Char) :
    name pointer = (if definitionsRoot <+: pointer.toList then
        pure (String.ofList (decode (pointer.toList.drop definitionsRoot.length)))
      else ⟨pointer, [.foreignPointer pointer]⟩)
    ∧ decode (escape key.toList ++ rest) = key.toList ++ decode rest
    ∧ name (ofDefinition key) = pure key :=
  ⟨name_eq pointer, decode_escape_append key.toList rest, name_ofDefinition key⟩

/-- The tilde that is read here does not escape the digit behind it. -/
example : (name "#/definitions/a~01~1b~2~").value = "a~1/b~2~" := by decide +kernel

end Pointer
end SchemaTypes
