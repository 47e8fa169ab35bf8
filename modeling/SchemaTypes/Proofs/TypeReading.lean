import SchemaTypes.Proofs.NormalType
import SchemaTypes.Proofs.TypeGrammar

/-! What the tokens of a type are read as, from what those of its parts are read as. -/
namespace SchemaTypes.TypeGrammar

open TypeExpr
open TypeToken (shownDoc)

/-- The tokens leave a type in front of them as it is: a quoted name in brackets would make it the
container of a reference. -/
def EndsType (tokens : List TypeToken) : Prop :=
  ∀ name rest, tokens ≠ .leftBracket :: .quoted name :: .rightBracket :: rest

theorem endsType_cons {token : TypeToken} (h : token ≠ .leftBracket) (rest : List TypeToken) :
    EndsType (token :: rest) := by
  intro name more heq
  cases heq
  exact h rfl

/-- The tokens are read as one operand, whatever stands around them. -/
def ReadsOperand (tokens : List TypeToken) (shown : TypeExpr) : Prop :=
  ∀ frames phrase rest, EndsType rest → ∃ type,
    operand frames phrase (tokens ++ rest) = after frames phrase type rest
      ∧ type.normalWith id = shown

/-- The tokens are read as factors that follow those in front. -/
def ReadsFactors (tokens : List TypeToken) (shown : List TypeExpr) : Prop :=
  ∀ frames phrase rest, EndsType rest → ∃ read type,
    operand frames phrase (tokens ++ rest) = after frames ⟨phrase.alternatives, read⟩ type rest
      ∧ (read ++ [type]).flatMap (factorsWith id)
        = phrase.factors.flatMap (factorsWith id) ++ shown

/-- The tokens are read as alternatives that follow those in front. -/
def ReadsAlternatives (tokens : List TypeToken) (shown : List TypeExpr) : Prop :=
  ∀ frames before rest, EndsType rest → ∃ phrase type,
    operand frames ⟨before, []⟩ (tokens ++ rest) = after frames phrase type rest
      ∧ (phrase.allWith type).flatMap (alternativesWith id)
        = before.flatMap (alternativesWith id) ++ shown

section
variable {tokens : List TypeToken} {shown : List TypeExpr} {type : TypeExpr}

theorem ReadsOperand.readsFactors (h : ReadsOperand tokens type) :
    ReadsFactors tokens type.factors := by
  intro frames phrase rest hrest
  obtain ⟨read, hread, hshown⟩ := h frames phrase rest hrest
  refine ⟨phrase.factors, read, hread, ?_⟩
  rw [List.flatMap_append, List.flatMap_singleton, factorsWith, hshown]

theorem ReadsFactors.readsAlternatives (h : ReadsFactors tokens shown) :
    ReadsAlternatives tokens (intersectionOf shown).alternatives := by
  intro frames before rest hrest
  obtain ⟨read, type, hread, hshown⟩ := h frames ⟨before, []⟩ rest hrest
  refine ⟨⟨before, read⟩, type, hread, ?_⟩
  have hfactors : (read ++ [type]).flatMap (factorsWith id) = shown := hshown
  rw [Phrase.allWith, List.flatMap_append, List.flatMap_singleton, alternativesWith,
    normalWith_intersectionOf, hfactors]

/-- What is read up to the end of the alternatives. -/
theorem ReadsAlternatives.closes (h : ReadsAlternatives tokens shown) (frames : List Frame)
    {rest : List TypeToken} (hrest : EndsType rest) :
    ∃ phrase type, operand frames {} (tokens ++ rest) = after frames phrase type rest
      ∧ (phrase.close type).normalWith id = unionOf shown := by
  obtain ⟨phrase, type, hread, hshown⟩ := h frames [] rest hrest
  refine ⟨phrase, type, hread, ?_⟩
  rw [Phrase.close, normalWith_unionOf, hshown]
  rfl

theorem ReadsAlternatives.parenthesized (h : ReadsAlternatives tokens shown) :
    ReadsOperand (.leftParen :: tokens ++ [.rightParen]) (unionOf shown) := by
  intro frames phrase rest _
  have hclose : EndsType (.rightParen :: rest) := endsType_cons (by simp) rest
  obtain ⟨inner, type, hread, hshown⟩ := h.closes (.parenthesis phrase :: frames) hclose
  refine ⟨inner.close type, ?_, hshown⟩
  rw [List.append_assoc, List.singleton_append, List.cons_append, operand, hread, after]

theorem ReadsOperand.array (h : ReadsOperand tokens type) :
    ReadsOperand (tokens ++ [.leftBracket, .rightBracket]) (.array type) := by
  intro frames phrase rest _
  have hbrackets : EndsType (.leftBracket :: .rightBracket :: rest) := by
    intro name more heq
    cases heq
  obtain ⟨read, hread, hshown⟩ := h frames phrase _ hbrackets
  refine ⟨.array read, ?_, ?_⟩
  · rw [List.append_assoc]
    exact hread.trans (by rw [after])
  · rw [normalWith, hshown]

end

section
variable {α : Type} {members : List α} {tokens : α → List TypeToken} {shown : α → List TypeExpr}

theorem readsFactors_intercalate (hne : members ≠ [])
    (h : ∀ m ∈ members, ReadsFactors (tokens m) (shown m)) :
    ReadsFactors ([.ampersand].intercalate (members.map tokens)) (members.flatMap shown) := by
  induction members with
  | nil => exact absurd rfl hne
  | cons m rest ih =>
    obtain ⟨hm, hmembers⟩ := List.forall_mem_cons.1 h
    by_cases hrest : rest = []
    · subst hrest
      simpa using hm
    · intro frames phrase more hmore
      have hnext : EndsType (.ampersand :: ([.ampersand].intercalate (rest.map tokens) ++ more)) :=
        endsType_cons (by simp) _
      obtain ⟨front, first, hfirst, hfront⟩ := hm frames phrase _ hnext
      obtain ⟨read, type, hread, hshown⟩ :=
        ih hrest hmembers frames (Phrase.and ⟨phrase.alternatives, front⟩ first) more hmore
      refine ⟨read, type, ?_, ?_⟩
      · rw [List.map_cons, List.intercalate_cons_of_ne_nil (by simpa using hrest),
          List.append_assoc, List.append_assoc, List.singleton_append, hfirst, after, hread]
        rfl
      · rw [hshown, Phrase.and, hfront, List.flatMap_cons, List.append_assoc]

theorem readsAlternatives_intercalate (hne : members ≠ [])
    (h : ∀ m ∈ members, ReadsAlternatives (tokens m) (shown m)) :
    ReadsAlternatives ([.bar].intercalate (members.map tokens)) (members.flatMap shown) := by
  induction members with
  | nil => exact absurd rfl hne
  | cons m rest ih =>
    obtain ⟨hm, hmembers⟩ := List.forall_mem_cons.1 h
    by_cases hrest : rest = []
    · subst hrest
      simpa using hm
    · intro frames before more hmore
      have hnext : EndsType (.bar :: ([.bar].intercalate (rest.map tokens) ++ more)) :=
        endsType_cons (by simp) _
      obtain ⟨front, first, hfirst, hfront⟩ := hm frames before _ hnext
      -- behind a bar, what the first member was read as stands in front of the others
      obtain ⟨phrase, type, hread, hshown⟩ :=
        ih hrest hmembers frames (front.allWith first) more hmore
      refine ⟨phrase, type, ?_, ?_⟩
      · rw [List.map_cons, List.intercalate_cons_of_ne_nil (by simpa using hrest),
          List.append_assoc, List.append_assoc, List.singleton_append, hfirst, after, Phrase.or,
          hread]
      · rw [hshown, hfront, List.flatMap_cons, List.append_assoc]

end

/-! ### Object literals -/

/-- The tokens are read as what the type says. -/
def ReadsType (tokens : List TypeToken) (type : TypeExpr) : Prop :=
  ReadsAlternatives tokens (type.alternativesWith shownDoc)

theorem ReadsType.closes {tokens : List TypeToken} {type : TypeExpr} (h : ReadsType tokens type)
    (frames : List Frame) {rest : List TypeToken} (hrest : EndsType rest) :
    ∃ phrase read, operand frames {} (tokens ++ rest) = after frames phrase read rest
      ∧ (phrase.close read).normalWith id = type.normalWith shownDoc := by
  obtain ⟨phrase, read, hread, hshown⟩ := ReadsAlternatives.closes h frames hrest
  exact ⟨phrase, read, hread, hshown.trans (isFlat_normalWith shownDoc type).unionOf_alternatives⟩

def keyToken (name : String) : TypeToken :=
  if Text.isIdentifier name then .word name else .quoted name

def propertyTokens (property : Property) (tokens : List TypeToken) : List TypeToken :=
  (shownDoc property.doc).toList.map .doc ++ keyToken property.name ::
    ((if property.optional then [.question] else []) ++ .colon :: tokens)

def indexTokens (tokens : List TypeToken) : List TypeToken :=
  [.leftBracket, .word "key", .colon, .word "string", .rightBracket, .colon] ++ tokens

theorem member_propertyTokens (frames : List Frame) (outer : Phrase) (before : List Property)
    (property : Property) (tokens rest : List TypeToken) :
    member frames outer before (propertyTokens property tokens ++ rest)
      = operand (.property outer before (shownDoc property.doc) property.name property.optional
          :: frames) {} (tokens ++ rest) := by
  obtain ⟨name, type, optional, doc⟩ := property
  have hkey : key frames outer before (shownDoc doc) name
      ((if optional then [.question] else []) ++ .colon :: tokens ++ rest)
        = operand (.property outer before (shownDoc doc) name optional :: frames) {}
            (tokens ++ rest) := by
    cases optional with
    | true => exact key.eq_1 ..
    | false => exact key.eq_2 ..
  rw [← hkey, propertyTokens, keyToken]
  cases shownDoc doc with
  | none => split <;> rfl
  | some text => split <;> rfl

theorem member_indexTokens (frames : List Frame) (outer : Phrase) (before : List Property)
    (tokens rest : List TypeToken) :
    member frames outer before (indexTokens tokens ++ rest)
      = operand (.index outer before :: frames) {} (tokens ++ rest) := by
  rw [indexTokens, List.append_assoc]
  exact (member.eq_2 ..).trans (if_pos rfl)

/-- A property is read up to the next part of the literal, or to its bracket. -/
theorem ReadsType.member_property {tokens : List TypeToken} {property : Property}
    (h : ReadsType tokens property.type) (parts : List (List TypeToken)) (frames : List Frame)
    (outer : Phrase) (before : List Property) (rest : List TypeToken) :
    ∃ type, member frames outer before ([.semicolon].intercalate
        (propertyTokens property tokens :: parts) ++ .rightBrace :: rest)
        = member frames outer
            (before ++ [⟨property.name, type, property.optional, shownDoc property.doc⟩])
            ([.semicolon].intercalate parts ++ .rightBrace :: rest)
      ∧ type.normalWith id = property.type.normalWith shownDoc := by
  have hend (token : TypeToken) (ht : token ≠ .leftBracket) (more : List TypeToken) :=
    h.closes (.property outer before (shownDoc property.doc) property.name property.optional
      :: frames) (endsType_cons ht more)
  by_cases hparts : parts = []
  · obtain ⟨phrase, type, hread, hshown⟩ := hend .rightBrace (by simp) rest
    refine ⟨phrase.close type, ?_, hshown⟩
    subst hparts
    rw [List.intercalate_singleton, List.intercalate_nil, member_propertyTokens, hread, after,
      List.nil_append, member]
  · obtain ⟨phrase, type, hread, hshown⟩ := hend .semicolon (by simp)
      ([.semicolon].intercalate parts ++ .rightBrace :: rest)
    refine ⟨phrase.close type, ?_, hshown⟩
    rw [List.intercalate_cons_of_ne_nil hparts, List.append_assoc, List.append_assoc,
      member_propertyTokens, List.singleton_append, hread, after]

variable {tokens : Property → List TypeToken} {indexed : TypeExpr → List TypeToken}

/-- The members of an object literal are read up to its bracket. -/
theorem member_intercalate {properties : List Property} {index : Option TypeExpr}
    (hp : ∀ p ∈ properties, ReadsType (tokens p) p.type)
    (hi : ∀ value ∈ index, ReadsType (indexed value) value)
    (frames : List Frame) (outer : Phrase) (before : List Property) (rest : List TypeToken) :
    ∃ read index', member frames outer before ([.semicolon].intercalate
        (properties.map (fun p => propertyTokens p (tokens p))
          ++ (index.map fun value => indexTokens (indexed value)).toList) ++ .rightBrace :: rest)
        = after frames outer (.object ⟨before ++ read, index'⟩) rest
      ∧ normalProperties id read = normalProperties shownDoc properties
      ∧ normalIndex id index' = normalIndex shownDoc index := by
  have hbrace : EndsType (.rightBrace :: rest) := endsType_cons (by simp) rest
  -- every step of the induction moves one property to those in front
  induction properties generalizing before with
  | nil =>
    cases index with
    | none =>
      refine ⟨[], none, ?_, rfl, rfl⟩
      rw [List.append_nil]
      exact member.eq_1 ..
    | some value =>
      obtain ⟨phrase, read, hread, hshown⟩ :=
        (hi value rfl).closes (.index outer before :: frames) hbrace
      refine ⟨[], some (phrase.close read), ?_, rfl, congrArg some hshown⟩
      have hone : [TypeToken.semicolon].intercalate [indexTokens (indexed value)]
          = indexTokens (indexed value) := List.intercalate_singleton
      rw [List.append_nil]
      refine (congrArg (member frames outer before <| · ++ _) hone).trans ?_
      rw [member_indexTokens, hread, after]
  | cons p properties ih =>
    obtain ⟨hfirst, hothers⟩ := List.forall_mem_cons.1 hp
    obtain ⟨type, hread, hshown⟩ := hfirst.member_property
      (properties.map (fun p => propertyTokens p (tokens p))
        ++ (index.map fun value => indexTokens (indexed value)).toList) frames outer before rest
    obtain ⟨read, index', hmore, hproperties, hindex⟩ := ih hothers
      (before ++ [⟨p.name, type, p.optional, shownDoc p.doc⟩])
    refine ⟨⟨p.name, type, p.optional, shownDoc p.doc⟩ :: read, index', ?_, ?_, hindex⟩
    · rw [List.map_cons, List.cons_append, hread, hmore, List.append_assoc, List.singleton_append]
    · obtain ⟨name, source, optional, doc⟩ := p
      rw [normalProperties, normalProperties, hproperties, hshown]
      rfl

/-- An object literal is read as one operand. -/
theorem readsOperand_object {properties : List Property} {index : Option TypeExpr}
    (hp : ∀ p ∈ properties, ReadsType (tokens p) p.type)
    (hi : ∀ value ∈ index, ReadsType (indexed value) value) :
    ReadsOperand (.leftBrace :: [.semicolon].intercalate
        (properties.map (fun p => propertyTokens p (tokens p))
          ++ (index.map fun value => indexTokens (indexed value)).toList) ++ [.rightBrace])
      ((object ⟨properties, index⟩).normalWith shownDoc) := by
  intro frames phrase rest _
  obtain ⟨read, index', hread, hproperties, hindex⟩ :=
    member_intercalate hp hi frames phrase [] rest
  refine ⟨.object ⟨read, index'⟩, ?_, ?_⟩
  · rw [List.append_assoc, List.singleton_append, List.cons_append, operand, hread,
      List.nil_append]
  · rw [normalWith, normalWith, hproperties, hindex]

end SchemaTypes.TypeGrammar
