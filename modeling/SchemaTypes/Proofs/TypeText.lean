import SchemaTypes.Proofs.TypeSpelling

/-! The text of a type reads back as the type. -/
namespace SchemaTypes

open Text
open TypeToken (lex_blank lex_mark lex_nil lex_quoted shownDoc)
open TypeGrammar

namespace TypeExpr

/-- No text from outside stands in the type, its unions and intersections have members, and the
containers of its references are identifiers. -/
inductive IsPlain : TypeExpr → Prop
  | primitive (kind : Primitive) : IsPlain (.primitive kind)
  | literal (text : String) : IsPlain (.literal text)
  | array {element : TypeExpr} : IsPlain element → IsPlain (.array element)
  | union {members : List TypeExpr} : members ≠ [] → (∀ m ∈ members, IsPlain m) →
      IsPlain (.union members)
  | intersection {members : List TypeExpr} : members ≠ [] → (∀ m ∈ members, IsPlain m) →
      IsPlain (.intersection members)
  | object {properties : List Property} {index : Option TypeExpr} :
      (∀ p ∈ properties, IsPlain p.type) → (∀ value ∈ index, IsPlain value) →
      IsPlain (.object ⟨properties, index⟩)
  | reference {container : String} (h : isIdentifier container) (name : String) :
      IsPlain (.reference container name)

theorem unionTexts_eq_map (members : List TypeExpr) : unionTexts members = members.map text := by
  induction members with
  | nil => rfl
  | cons member rest ih => rw [unionTexts, ih, List.map_cons]

theorem intersectionTexts_eq_map (members : List TypeExpr) :
    intersectionTexts members = members.map fun m => parenthesized m.isUnion m.text := by
  induction members with
  | nil => rfl
  | cons member rest ih => rw [intersectionTexts, ih, List.map_cons]

theorem propertyTexts_eq_map (properties : List Property) :
    propertyTexts properties = properties.map fun p => docComment p.doc ++ propertyKey p.name
      ++ (if p.optional then "?" else "") ++ ": " ++ p.type.text := by
  induction properties with
  | nil => rfl
  | cons p rest ih =>
    obtain ⟨name, type, optional, doc⟩ := p
    rw [propertyTexts, ih, List.map_cons]

/-- The text of the type is made of the tokens, and they are read as the type wherever its text
stands without parentheses. -/
structure IsReadFrom (type : TypeExpr) (tokens : List TypeToken) : Prop where
  spells : Spells type.text tokens
  reads : ReadsType tokens type
  readsFactors : type.isUnion = false → ReadsFactors tokens (type.factorsWith shownDoc)
  readsOperand : type.isComposed = false → ReadsOperand tokens (type.normalWith shownDoc)

namespace IsReadFrom
variable {type : TypeExpr} {tokens : List TypeToken}

theorem of_readsFactors (hs : Spells type.text tokens) (hc : type.isComposed = true)
    (h : ReadsFactors tokens (type.factorsWith shownDoc)) : IsReadFrom type tokens where
  spells := hs
  reads := by
    have halternatives := h.readsAlternatives
    rwa [factorsWith, (isFlat_normalWith shownDoc type).intersectionOf_factors] at halternatives
  readsFactors := fun _ => h
  readsOperand := fun hnot => absurd (hnot.symm.trans hc) Bool.false_ne_true

theorem of_readsOperand (hs : Spells type.text tokens)
    (h : ReadsOperand tokens (type.normalWith shownDoc)) : IsReadFrom type tokens where
  spells := hs
  reads := by
    have halternatives := h.readsFactors.readsAlternatives
    rwa [(isFlat_normalWith shownDoc type).intersectionOf_factors] at halternatives
  readsFactors := fun _ => h.readsFactors
  readsOperand := fun _ => h

theorem parenthesized (h : IsReadFrom type tokens) :
    Spells ("(" ++ type.text ++ ")") (.leftParen :: tokens ++ [.rightParen])
      ∧ ReadsOperand (.leftParen :: tokens ++ [.rightParen]) (type.normalWith shownDoc) := by
  have hreads := ReadsAlternatives.parenthesized h.reads
  rw [alternativesWith, (isFlat_normalWith shownDoc type).unionOf_alternatives] at hreads
  exact ⟨h.spells.parenthesized, hreads⟩

/-- As an element the type is one operand. -/
theorem element (h : IsReadFrom type tokens) : ∃ tokens,
    Spells (TypeExpr.parenthesized type.isComposed type.text) tokens
      ∧ ReadsOperand tokens (type.normalWith shownDoc) := by
  cases hcomposed : type.isComposed with
  | true => exact ⟨_, h.parenthesized⟩
  | false => exact ⟨tokens, h.spells, h.readsOperand hcomposed⟩

/-- Between `&` the type is one factor or several. -/
theorem factor (h : IsReadFrom type tokens) : ∃ tokens,
    Spells (TypeExpr.parenthesized type.isUnion type.text) tokens
      ∧ ReadsFactors tokens (type.factorsWith shownDoc) := by
  cases hunion : type.isUnion with
  | true =>
    obtain ⟨hspells, hreads⟩ := h.parenthesized
    exact ⟨_, hspells, hreads.readsFactors⟩
  | false => exact ⟨tokens, h.spells, h.readsFactors hunion⟩

end IsReadFrom

theorem isReadFrom_primitive (kind : Primitive) :
    IsReadFrom (.primitive kind) [.word kind.keyword] := by
  refine .of_readsOperand ?_ fun frames phrase rest hrest => ⟨.primitive kind, ?_, rfl⟩
  · rw [text]
    exact spells_word (by cases kind <;> decide)
  · rw [List.singleton_append, operand, Primitive.ofKeyword?_keyword]
    exact hrest

theorem isReadFrom_literal (value : String) : IsReadFrom (.literal value) [.quoted value] := by
  refine .of_readsOperand ?_ fun frames phrase rest _ => ⟨.literal value, ?_, rfl⟩
  · rw [text]
    exact spells_singleQuoted value
  · rw [List.singleton_append, operand]

theorem isReadFrom_reference {container : String} (h : isIdentifier container) (name : String) :
    IsReadFrom (.reference container name)
      [.word container, .leftBracket, .quoted name, .rightBracket] := by
  refine .of_readsOperand ?_ fun frames phrase rest _ => ⟨.reference container name, ?_, rfl⟩
  · rw [text]
    exact spells_reference h name
  · exact operand.eq_1 ..

variable {members : List TypeExpr}

theorem exists_isReadFrom_array {element : TypeExpr} {tokens : List TypeToken}
    (h : IsReadFrom element tokens) : ∃ tokens, IsReadFrom (.array element) tokens := by
  obtain ⟨inner, hspells, hreads⟩ := h.element
  refine ⟨inner ++ [.leftBracket, .rightBracket], .of_readsOperand ?_ ?_⟩
  · rw [text]
    exact hspells.array
  · rw [normalWith]
    exact hreads.array

theorem exists_isReadFrom_union (hne : members ≠ [])
    (h : ∀ m ∈ members, ∃ tokens, IsReadFrom m tokens) :
    ∃ tokens, IsReadFrom (.union members) tokens := by
  choose! tokens htokens using h
  have hspells : List.Forall₂ Spells (members.map text) (members.map tokens) := by
    rw [List.forall₂_map_left_iff, List.forall₂_map_right_iff, List.forall₂_same]
    exact fun m hm => (htokens m hm).spells
  refine ⟨[.bar].intercalate (members.map tokens), ?_, ?_, nofun, nofun⟩
  · rw [text, unionTexts_eq_map]
    exact spells_join (separates_blanks rfl rfl) hspells
  · rw [ReadsType, alternativesWith_union]
    exact readsAlternatives_intercalate hne fun m hm => (htokens m hm).reads

theorem exists_isReadFrom_intersection (hne : members ≠ [])
    (h : ∀ m ∈ members, ∃ tokens, IsReadFrom m tokens) :
    ∃ tokens, IsReadFrom (.intersection members) tokens := by
  have hfactors : ∀ m ∈ members, ∃ tokens, Spells (parenthesized m.isUnion m.text) tokens
      ∧ ReadsFactors tokens (m.factorsWith shownDoc) := by
    intro m hm
    obtain ⟨tokens, htokens⟩ := h m hm
    exact htokens.factor
  choose! tokens htokens using hfactors
  have hspells : List.Forall₂ Spells
      (members.map fun m => parenthesized m.isUnion m.text) (members.map tokens) := by
    rw [List.forall₂_map_left_iff, List.forall₂_map_right_iff, List.forall₂_same]
    exact fun m hm => (htokens m hm).1
  refine ⟨[.ampersand].intercalate (members.map tokens), .of_readsFactors ?_ rfl ?_⟩
  · rw [text, intersectionTexts_eq_map]
    exact spells_join (separates_blanks rfl rfl) hspells
  · rw [factorsWith_intersection shownDoc hne]
    exact readsFactors_intercalate hne fun m hm => (htokens m hm).2

theorem spells_object {properties : List Property} {index : Option TypeExpr}
    {tokens : Property → List TypeToken} {indexed : TypeExpr → List TypeToken}
    (hp : ∀ p ∈ properties, Spells p.type.text (tokens p))
    (hi : ∀ value ∈ index, Spells value.text (indexed value)) :
    Spells (object ⟨properties, index⟩).text (.leftBrace :: [.semicolon].intercalate
      (properties.map (fun p => propertyTokens p (tokens p))
        ++ (index.map fun value => indexTokens (indexed value)).toList) ++ [.rightBrace]) := by
  have hproperties : List.Forall₂ Spells (propertyTexts properties)
      (properties.map fun p => propertyTokens p (tokens p)) := by
    rw [propertyTexts_eq_map, List.forall₂_map_left_iff, List.forall₂_map_right_iff,
      List.forall₂_same]
    exact fun p hm => (hp p hm).property
  have hindex : List.Forall₂ Spells (indexTexts index)
      (index.map fun value => indexTokens (indexed value)).toList := by
    cases index with
    | none => exact .nil
    | some value => exact .cons (hi value rfl).indexed .nil
  rw [text, objectText]
  exact spells_braced (List.rel_append hproperties hindex)

theorem exists_isReadFrom_object {properties : List Property} {index : Option TypeExpr}
    (hp : ∀ p ∈ properties, ∃ tokens, IsReadFrom p.type tokens)
    (hi : ∀ value ∈ index, ∃ tokens, IsReadFrom value tokens) :
    ∃ tokens, IsReadFrom (.object ⟨properties, index⟩) tokens := by
  choose! tokens htokens using hp
  choose! indexed hindexed using hi
  have hspells := spells_object (fun p hm => (htokens p hm).spells)
    fun value hm => (hindexed value hm).spells
  have hreads := readsOperand_object (fun p hm => (htokens p hm).reads)
    fun value hm => (hindexed value hm).reads
  exact ⟨_, .of_readsOperand hspells hreads⟩

theorem IsPlain.exists_isReadFrom {type : TypeExpr} (h : type.IsPlain) :
    ∃ tokens, IsReadFrom type tokens := by
  induction h with
  | primitive kind => exact ⟨_, isReadFrom_primitive kind⟩
  | literal value => exact ⟨_, isReadFrom_literal value⟩
  | array _ ih =>
    obtain ⟨tokens, htokens⟩ := ih
    exact exists_isReadFrom_array htokens
  | union hne _ ih => exact exists_isReadFrom_union hne ih
  | intersection hne _ ih => exact exists_isReadFrom_intersection hne ih
  | object _ _ ihp ihi => exact exists_isReadFrom_object ihp ihi
  | reference hcontainer name => exact ⟨_, isReadFrom_reference hcontainer name⟩

/-- The whole text of a type is read, and says what the type says. -/
theorem IsPlain.ofText?_text {type : TypeExpr} (h : type.IsPlain) :
    ∃ read, ofText? type.text = some read ∧ read.normalWith id = type.normalWith shownDoc := by
  obtain ⟨tokens, htokens⟩ := h.exists_isReadFrom
  have hend : EndsType [] := nofun
  obtain ⟨phrase, last, hread, hshown⟩ := htokens.reads.closes [] hend
  refine ⟨phrase.close last, ?_, hshown⟩
  have hlex := htokens.spells [] nofun
  rw [lex_nil, Option.map_some, List.append_nil, List.append_nil] at hlex
  rw [List.append_nil] at hread
  rw [ofText?, hlex, Option.bind_some, hread, after]
  rfl

theorem IsPlain.normalWith_eq_of_text_eq {type other : TypeExpr} (h : type.IsPlain)
    (hother : other.IsPlain) (heq : type.text = other.text) :
    type.normalWith shownDoc = other.normalWith shownDoc := by
  obtain ⟨read, hread, hshown⟩ := h.ofText?_text
  obtain ⟨read', hread', hshown'⟩ := hother.ofText?_text
  rw [heq, hread'] at hread
  cases hread
  exact hshown.symm.trans hshown'

/-- A comment reads back up to its own end, with the blank behind it left. Only a blank description
has none. -/
theorem readComment_docComment (description : String) (rest : List Char) :
    docComment (some description) = "" ∧ (∀ c ∈ description.toList, isBlank c = true) ∨
      readComment ((docComment (some description)).toList.drop 3 ++ rest)
        = some (' ' :: (docText description).toList ++ [' '], ' ' :: rest) := by
  by_cases hempty : docText description = ""
  · exact Or.inl ⟨by simp [docComment, hempty], (docText_eq_empty_iff description).1 hempty⟩
  · refine Or.inr ?_
    have hbehind : (docComment (some description)).toList.drop 3 ++ rest
        = ' ' :: (docText description).toList ++ ' ' :: '*' :: '/' :: ' ' :: rest := by
      simp [docComment, hempty]
    rw [hbehind, readComment_docText]

end TypeExpr
end SchemaTypes
