import Mathlib.Data.List.Basic
import SchemaTypes.Proofs.Literal
import SchemaTypes.TypeExpr.Text

/-! Comments as a script reads them, and why a description cannot leave its comment. -/
namespace SchemaTypes

namespace Text

/-- Reads a comment behind its opening: its text, and what follows its end. -/
def readComment : List Char → Option (List Char × List Char)
  | [] => none
  | c :: rest =>
    if c = '*' ∧ rest.head? = some '/' then some ([], rest.tail)
    else (readComment rest).map fun read => (c :: read.1, read.2)

theorem length_lt_of_readComment {cs text rest : List Char}
    (h : readComment cs = some (text, rest)) : rest.length < cs.length := by
  induction cs generalizing text rest with
  | nil => cases h
  | cons c cs ih =>
    rw [readComment] at h
    split at h
    · cases h
      simp only [List.length_tail, List.length_cons]
      omega
    · have := length_lt_of_map (_ :: ·) ih h
      simp only [List.length_cons]
      omega

/-- A comment ends at its first end. -/
theorem readComment_append {text : List Char} (h : ¬ ['*', '/'] <:+: text) (rest : List Char) :
    readComment (text ++ '*' :: '/' :: rest) = some (text, rest) := by
  induction text with
  | nil => simp [readComment]
  | cons c cs ih =>
    rw [List.infix_cons_iff, not_or] at h
    obtain ⟨hfront, hinfix⟩ := h
    rw [List.cons_append, readComment, if_neg, ih hinfix]
    · rfl
    · rintro ⟨rfl, hslash⟩
      cases cs with
      | nil => cases hslash
      | cons d ds =>
        cases hslash
        exact hfront ⟨ds, rfl⟩

theorem head?_replacePair (a b : Char) (new cs : List Char) :
    (replacePair a b (a :: new) cs).head? = cs.head? := by
  fun_cases replacePair a b (a :: new) cs with
  | case1 => rfl
  | case2 => rfl
  | case3 c d rest h => exact congrArg some h.1.symm
  | case4 => rfl

/-- Once every end of a comment has a backslash in it, none is left. -/
theorem notInfix_replacePair (cs : List Char) :
    ¬ ['*', '/'] <:+: replacePair '*' '/' ['*', '\\', '/'] cs := by
  fun_induction replacePair '*' '/' ['*', '\\', '/'] cs with
  | case1 => simp
  | case2 c => simp [List.infix_cons_iff]
  | case3 c d rest h ih => simpa [List.infix_cons_iff, List.cons_prefix_cons] using ih
  | case4 c d rest h ih =>
    rw [List.infix_cons_iff, not_or]
    refine ⟨fun hfront => ?_, ih⟩
    obtain ⟨rfl, hrest⟩ := List.cons_prefix_cons.1 hfront
    obtain ⟨more, hmore⟩ := hrest
    have hhead : (replacePair '*' '/' ['*', '\\', '/'] (d :: rest)).head? = some d :=
      head?_replacePair '*' '/' ['\\', '/'] (d :: rest)
    rw [← hmore] at hhead
    cases hhead
    exact h ⟨rfl, rfl⟩

theorem getLast?_replacePair (cs : List Char) :
    (replacePair '*' '/' ['*', '\\', '/'] cs).getLast? = cs.getLast? := by
  fun_induction replacePair '*' '/' ['*', '\\', '/'] cs with
  | case1 => rfl
  | case2 c => rfl
  | case3 c d rest h ih =>
    obtain ⟨rfl, rfl⟩ := h
    rw [List.getLast?_append, ih]
    have hpair : (['*', '/'] ++ rest).getLast? = rest.getLast?.or (some '/') :=
      List.getLast?_append
    exact hpair.symm
  | case4 c d rest h ih =>
    rw [List.getLast?_cons, ih]
    simp [List.getLast?_cons]

/-- A text without a blank at either end. -/
def IsTight (cs : List Char) : Prop :=
  ∀ c, cs.head? = some c ∨ cs.getLast? = some c → isBlank c = false

theorem dropWhile_eq_self {cs : List Char} (h : ∀ c, cs.head? = some c → isBlank c = false) :
    cs.dropWhile isBlank = cs := by
  cases cs with
  | nil => rfl
  | cons c cs => exact List.dropWhile_cons_of_neg (by simp [h c rfl])

/-- The blanks that a comment has around its text are trimmed off, and no other. -/
theorem trimChars_blanks {cs : List Char} (h : IsTight cs) (hne : cs ≠ []) :
    trimChars (' ' :: cs ++ [' ']) = cs := by
  have hfront : (' ' :: cs ++ [' ']).dropWhile isBlank = cs ++ [' '] := by
    rw [List.cons_append, List.dropWhile_cons_of_pos (by decide)]
    refine dropWhile_eq_self fun c hc => h c (Or.inl ?_)
    obtain ⟨d, ds, rfl⟩ := List.exists_cons_of_ne_nil hne
    exact hc
  have hback : (cs ++ [' ']).reverse.dropWhile isBlank = cs.reverse := by
    rw [List.reverse_append, List.reverse_singleton, List.singleton_append,
      List.dropWhile_cons_of_pos (by decide)]
    refine dropWhile_eq_self fun c hc => h c (Or.inr ?_)
    rwa [List.head?_reverse] at hc
  rw [trimChars, hfront, hback, List.reverse_reverse]

/-- A word has a character, and none that is blank. -/
def IsWord (cs : List Char) : Prop := cs ≠ [] ∧ ∀ c ∈ cs, isBlank c = false

theorem isTight_of_isWord {cs : List Char} (h : IsWord cs) : IsTight cs := by
  rintro c (hc | hc)
  · exact h.2 c (List.mem_of_mem_head? hc)
  · exact h.2 c (List.mem_of_mem_getLast? hc)

theorem isWord_of_mem_wordsFrom {word cs : List Char} (hw : ∀ c ∈ word, isBlank c = false) :
    ∀ w ∈ wordsFrom word cs, IsWord w := by
  have hopen (he : ¬ word.isEmpty) : IsWord word.reverse :=
    ⟨by simpa using he, by simpa using hw⟩
  induction cs generalizing word with
  | nil =>
    unfold wordsFrom
    split
    · simp
    next he => simpa using hopen he
  | cons c cs ih =>
    unfold wordsFrom
    split
    · split
      · exact ih (by simp) (by simp)
      next he => exact List.forall_mem_cons.2 ⟨hopen he, ih (by simp) (by simp)⟩
    next hc =>
      have hword : ∀ d ∈ c :: word, isBlank d = false :=
        List.forall_mem_cons.2 ⟨by simpa using hc, hw⟩
      exact ih hword fun _ => ⟨by simp, fun d hd => hword d (List.mem_reverse.1 hd)⟩

theorem wordsFrom_eq_nil_iff {word cs : List Char} :
    wordsFrom word cs = [] ↔ word = [] ∧ ∀ c ∈ cs, isBlank c = true := by
  induction cs generalizing word with
  | nil => simp [wordsFrom]
  | cons c cs ih =>
    rw [wordsFrom, List.forall_mem_cons]
    split
    next hc =>
      split
      next hword => simp [ih, hc, List.isEmpty_iff.1 hword]
      next hword =>
        have hne : word ≠ [] := fun hnil => hword (List.isEmpty_iff.2 hnil)
        simp [hne]
    next hc => simp [ih, hc]

theorem isTight_join {words : List String} (h : ∀ w ∈ words, IsWord w.toList) :
    IsTight (join " " words).toList ∧ (words ≠ [] → (join " " words).toList ≠ []) := by
  fun_induction join " " words with
  | case1 =>
    refine ⟨fun c hc => ?_, fun hne => absurd rfl hne⟩
    rcases hc with hc | hc <;> cases hc
  | case2 s =>
    have hs := h s (by simp)
    exact ⟨isTight_of_isWord hs, fun _ => hs.1⟩
  | case3 s t rest ih =>
    obtain ⟨hs, hrest⟩ := List.forall_mem_cons.1 h
    obtain ⟨htight, hne⟩ := ih hrest
    obtain ⟨d, ds, hd⟩ := List.exists_cons_of_ne_nil hs.1
    simp only [String.toList_append, hd]
    refine ⟨?_, by simp⟩
    rintro c (hc | hc)
    · exact isTight_of_isWord hs c (Or.inl (by rw [hd]; exact hc))
    · rw [List.getLast?_append_of_ne_nil _ (hne (by simp))] at hc
      exact htight c (Or.inr hc)

end Text

open Text

theorem toList_docText (doc : String) :
    (docText doc).toList = replacePair '*' '/' ['*', '\\', '/'] (join " " (words doc)).toList := by
  rw [docText, String.toList_ofList]

theorem isWord_of_mem_words (doc : String) : ∀ w ∈ words doc, IsWord w.toList := by
  refine List.forall_mem_map.2 fun w hw => ?_
  rw [String.toList_ofList]
  exact isWord_of_mem_wordsFrom (by simp) w hw

theorem isTight_docText (doc : String) : IsTight (docText doc).toList := by
  have htight := (isTight_join (isWord_of_mem_words doc)).1
  rw [toList_docText]
  intro c hc
  rw [head?_replacePair, getLast?_replacePair] at hc
  exact htight c hc

/-- Only a blank description has no text. -/
theorem docText_eq_empty_iff (doc : String) :
    docText doc = "" ↔ ∀ c ∈ doc.toList, isBlank c = true := by
  have hwords : words doc = [] ↔ ∀ c ∈ doc.toList, isBlank c = true := by
    rw [words, List.map_eq_nil_iff, wordsFrom_eq_nil_iff]
    exact and_iff_right rfl
  rw [← hwords]
  constructor
  · intro hempty
    by_contra hne
    have hjoin := (isTight_join (isWord_of_mem_words doc)).2 hne
    have hnil : (docText doc).toList.head? = none := by rw [hempty]; rfl
    rw [toList_docText, head?_replacePair] at hnil
    exact hjoin (List.head?_eq_none_iff.1 hnil)
  · intro hnone
    rw [docText, hnone]
    rfl

/-- The text of a comment reads back, and what follows the comment is left: no description ends its
own comment. -/
theorem readComment_docText (doc : String) (rest : List Char) :
    readComment (' ' :: (docText doc).toList ++ ' ' :: '*' :: '/' :: rest)
      = some (' ' :: (docText doc).toList ++ [' '], rest) := by
  have hinside : ¬ ['*', '/'] <:+: ' ' :: (docText doc).toList ++ [' '] := by
    rw [List.infix_concat_iff, List.infix_cons_iff, toList_docText]
    rintro (hback | hfront | hinfix)
    · rcases List.suffix_concat_iff.1 hback with hnil | ⟨front, heq, _⟩
      · cases hnil
      · have hlast := congrArg List.getLast? heq
        rw [List.getLast?_concat] at hlast
        cases hlast
    · cases (List.cons_prefix_cons.1 hfront).1
    · exact notInfix_replacePair _ hinfix
  have hread := readComment_append hinside rest
  rwa [List.append_assoc] at hread

theorem trimChars_docText {doc : String} (h : (docText doc).toList ≠ []) :
    trimChars (' ' :: (docText doc).toList ++ [' ']) = (docText doc).toList :=
  trimChars_blanks (isTight_docText doc) h

end SchemaTypes
