import SchemaTypes.Proofs.Comment
import SchemaTypes.Proofs.Literal
import SchemaTypes.Proofs.TypeText

/-! Ends of lines in the text of types. Quotes, keys and comments have none, whatever is quoted,
named or described, so they come with a container or with text from outside. -/
namespace SchemaTypes

namespace Text

/-- No character of the text is of this kind. -/
def FreeOf (bad : Char → Prop) (s : String) : Prop := ∀ c ∈ s.toList, ¬bad c

variable {bad worse : Char → Prop} {s t : String}

instance [DecidablePred bad] : Decidable (FreeOf bad s) :=
  List.decidableBAll (fun c => ¬bad c) s.toList

theorem freeOf_empty : FreeOf bad "" := by simp [FreeOf]

theorem FreeOf.imp (hs : FreeOf worse s) (h : ∀ c, bad c → worse c) : FreeOf bad s :=
  fun c hc hbad => hs c hc (h c hbad)

theorem FreeOf.append (hs : FreeOf bad s) (ht : FreeOf bad t) : FreeOf bad (s ++ t) := by
  intro c hc
  rw [String.toList_append, List.mem_append] at hc
  exact hc.elim (hs c) (ht c)

theorem FreeOf.join (hs : FreeOf bad s) {parts : List String} (h : ∀ part ∈ parts, FreeOf bad part) :
    FreeOf bad (join s parts) := by
  fun_induction Text.join s parts with
  | case1 => exact freeOf_empty
  | case2 t => exact h t (List.mem_singleton_self t)
  | case3 t u rest ih =>
    obtain ⟨ht, hrest⟩ := List.forall_mem_cons.1 h
    exact (ht.append hs).append (ih hrest)

abbrev NoLineEnd (s : String) : Prop := FreeOf (fun c => isLineEnd c) s

theorem lineEnd_cases {c : Char} (h : isLineEnd c) :
    c = '\n' ∨ c = '\r' ∨ c = '\u2028' ∨ c = '\u2029' := by
  simpa only [isLineEnd, Bool.or_eq_true, beq_iff_eq, or_assoc] using h

theorem isBlank_of_isLineEnd {c : Char} (h : isLineEnd c) : isBlank c = true := by
  rcases lineEnd_cases h with rfl | rfl | rfl | rfl <;> rfl

theorem all_escapeSingleChar (c : Char) : (escapeSingleChar c).all (!isLineEnd ·) = true := by
  unfold escapeSingleChar
  split
  · rfl
  · rfl
  · rfl
  · rfl
  · rfl
  · rfl
  next hn hr hl hp =>
    rw [List.all_cons, List.all_nil, Bool.and_true, Bool.not_eq_true', ← Bool.not_eq_true]
    intro hend
    rcases lineEnd_cases hend with rfl | rfl | rfl | rfl <;> contradiction

theorem noLineEnd_singleQuoted (s : String) : NoLineEnd (singleQuoted s) := by
  have hescape : NoLineEnd (escapeSingle s) := by
    intro c hc hend
    rw [escapeSingle, String.toList_ofList] at hc
    obtain ⟨d, -, hd⟩ := List.mem_flatMap.1 hc
    have hfree := List.all_eq_true.1 (all_escapeSingleChar d) c hd
    rw [hend] at hfree
    cases hfree
  exact (FreeOf.append (by decide) hescape).append (by decide)

theorem noLineEnd_of_isIdentifier {name : String} (h : isIdentifier name) : NoLineEnd name := by
  have hparts : ∀ c ∈ name.toList, isIdentifierStart c ∨ isIdentifierPart c := by
    unfold isIdentifier at h
    split at h
    · cases h
    next c cs hcs =>
      obtain ⟨hstart, hrest⟩ := (Bool.and_eq_true _ _).mp h
      rw [hcs]
      exact List.forall_mem_cons.2 ⟨.inl hstart, fun d hd => .inr (List.all_eq_true.1 hrest d hd)⟩
  intro c hc hend
  have hpart := hparts c hc
  rcases lineEnd_cases hend with rfl | rfl | rfl | rfl <;> exact absurd hpart (by decide)

theorem noLineEnd_propertyKey (name : String) : NoLineEnd (propertyKey name) := by
  unfold propertyKey
  split
  next h => exact noLineEnd_of_isIdentifier h
  next => exact noLineEnd_singleQuoted name

theorem mem_replacePair {a b c : Char} {new cs : List Char} (h : c ∈ replacePair a b new cs) :
    c ∈ cs ∨ c ∈ new := by
  fun_induction replacePair a b new cs with
  | case1 => cases h
  | case2 => exact .inl h
  | case3 d e rest _ ih =>
    rcases List.mem_append.1 h with hnew | hrest
    · exact .inr hnew
    · exact (ih hrest).imp_left fun hc => List.mem_cons_of_mem _ (List.mem_cons_of_mem _ hc)
  | case4 d e rest _ ih =>
    rcases List.mem_cons.1 h with rfl | hrest
    · exact .inl List.mem_cons_self
    · exact (ih hrest).imp_left (List.mem_cons_of_mem _)

end Text

open Text

theorem noLineEnd_docText (doc : String) : NoLineEnd (docText doc) := by
  have hwords : NoLineEnd (Text.join " " (words doc)) := by
    refine FreeOf.join (by decide) fun word hw c hc hend => ?_
    have hblank := (isWord_of_mem_words doc word hw).2 c hc
    rw [isBlank_of_isLineEnd hend] at hblank
    cases hblank
  have hmarks : NoLineEnd "*\\/" := by decide
  intro c hc
  rw [toList_docText] at hc
  exact (mem_replacePair hc).elim (hwords c) (hmarks c)

theorem noLineEnd_docComment (doc : Option String) : NoLineEnd (docComment doc) := by
  cases doc with
  | none => exact freeOf_empty
  | some doc =>
    dsimp only [docComment]
    split
    · exact freeOf_empty
    · exact (FreeOf.append (by decide) (noLineEnd_docText doc)).append (by decide)

namespace TypeExpr

/-- No container and no text from outside in the type has a character of this kind. -/
inductive IsFreeOf (bad : Char → Prop) : TypeExpr → Prop
  | primitive (kind : Primitive) : IsFreeOf bad (.primitive kind)
  | literal (text : String) : IsFreeOf bad (.literal text)
  | array {element : TypeExpr} : IsFreeOf bad element → IsFreeOf bad (.array element)
  | union {members : List TypeExpr} : (∀ m ∈ members, IsFreeOf bad m) →
      IsFreeOf bad (.union members)
  | intersection {members : List TypeExpr} : (∀ m ∈ members, IsFreeOf bad m) →
      IsFreeOf bad (.intersection members)
  | object {properties : List Property} {index : Option TypeExpr} :
      (∀ p ∈ properties, IsFreeOf bad p.type) → (∀ value ∈ index, IsFreeOf bad value) →
      IsFreeOf bad (.object ⟨properties, index⟩)
  | reference {container : String} (h : FreeOf bad container) (name : String) :
      IsFreeOf bad (.reference container name)
  | verbatim {text : String} (h : FreeOf bad text) : IsFreeOf bad (.verbatim text)

variable {bad : Char → Prop} {text : String}

theorem freeOf_parenthesized (hb : ∀ c, bad c → isLineEnd c) (h : FreeOf bad text) (yes : Bool) :
    FreeOf bad (parenthesized yes text) := by
  have hopen : NoLineEnd "(" := by decide
  have hclose : NoLineEnd ")" := by decide
  cases yes with
  | false => exact h
  | true => exact ((hopen.imp hb).append h).append (hclose.imp hb)

theorem freeOf_braced (hb : ∀ c, bad c → isLineEnd c) {members : List String}
    (h : ∀ member ∈ members, FreeOf bad member) : FreeOf bad (braced members) := by
  have hempty : NoLineEnd "\x7b\x7d" := by decide
  have hopen : NoLineEnd "\x7b " := by decide
  have hclose : NoLineEnd " \x7d" := by decide
  have hseparator : NoLineEnd "; " := by decide
  cases members with
  | nil => exact hempty.imp hb
  | cons member rest =>
    exact ((hopen.imp hb).append ((hseparator.imp hb).join h)).append (hclose.imp hb)

/-- What ends a line in the text of a type comes with a container or with text from outside. -/
theorem IsFreeOf.freeOf_text {type : TypeExpr} (h : type.IsFreeOf bad)
    (hb : ∀ c, bad c → isLineEnd c) : FreeOf bad type.text := by
  have hmarks : NoLineEnd "[]" ∧ NoLineEnd " | " ∧ NoLineEnd " & " ∧ NoLineEnd "[" ∧ NoLineEnd "]"
      ∧ NoLineEnd "?" ∧ NoLineEnd ": " ∧ NoLineEnd "[key: string]: " := by
    decide
  obtain ⟨hbrackets, hbar, hampersand, hopen, hclose, hoptional, hcolon, hindex⟩ := hmarks
  induction h with
  | primitive kind =>
    have hkeyword : NoLineEnd kind.keyword := by cases kind <;> decide
    exact hkeyword.imp hb
  | literal value => exact (noLineEnd_singleQuoted value).imp hb
  | array _ ih => exact (freeOf_parenthesized hb ih _).append (hbrackets.imp hb)
  | union _ ih =>
    rw [TypeExpr.text, unionTexts_eq_map]
    exact (hbar.imp hb).join (List.forall_mem_map.2 ih)
  | intersection _ ih =>
    rw [TypeExpr.text, intersectionTexts_eq_map]
    refine (hampersand.imp hb).join (List.forall_mem_map.2 fun m hm => ?_)
    exact freeOf_parenthesized hb (ih m hm) _
  | @object properties index _ _ ihp ihi =>
    rw [TypeExpr.text, objectText, propertyTexts_eq_map]
    refine freeOf_braced hb fun member hm => ?_
    rcases List.mem_append.1 hm with hm | hm
    · obtain ⟨p, hp, rfl⟩ := List.mem_map.1 hm
      have hmark : NoLineEnd (if p.optional then "?" else "") := by
        split
        · exact hoptional
        · decide
      exact (((((noLineEnd_docComment p.doc).append (noLineEnd_propertyKey p.name)).append
        hmark).append hcolon).imp hb).append (ihp p hp)
    · cases index with
      | none => cases hm
      | some value =>
        obtain rfl := List.mem_singleton.1 hm
        exact (hindex.imp hb).append (ihi value rfl)
  | reference hcontainer name =>
    exact ((hcontainer.append (hopen.imp hb)).append
      ((noLineEnd_singleQuoted name).imp hb)).append (hclose.imp hb)
  | verbatim htext => exact htext

end TypeExpr
end SchemaTypes
