import SchemaTypes.Proofs.OwnAnswer
import SchemaTypes.Proofs.TypePieces

/-! The look-ups of a tree: where a reference is written one stands for it, and its text is part of
the text of the type if the types of properties, members and items lead there. -/
namespace SchemaTypes

/-! ### The words in the text of a type -/

def Piece.word? : Piece → Option String
  | .word text => some text
  | _ => none

namespace TypeExpr

/-- The keywords, literals and look-ups of a type in the order of its text. -/
def words (type : TypeExpr) : List String := type.pieces.filterMap Piece.word?

theorem mem_words {type : TypeExpr} {text : String} :
    text ∈ type.words ↔ .word text ∈ type.pieces := by
  rw [words, List.mem_filterMap]
  constructor
  · rintro ⟨piece, hp, hw⟩
    cases piece <;> cases hw
    exact hp
  · exact fun h => ⟨_, h, rfl⟩

theorem filterMap_word?_intercalate {separator : Piece} (h : separator.word? = none)
    (parts : List (List Piece)) : ([separator].intercalate parts).filterMap Piece.word?
      = parts.flatMap (List.filterMap Piece.word?) := by
  induction parts with
  | nil => rfl
  | cons part rest ih =>
    cases rest with
    | nil => simp
    | cons other rest =>
      rw [List.intercalate_cons_cons, List.filterMap_append, List.filterMap_append, ih,
        List.filterMap_cons_none h, List.filterMap_nil, List.append_nil, ← List.flatMap_cons]

theorem filterMap_word?_wrapped (yes : Bool) (pieces : List Piece) :
    (wrapped yes pieces).filterMap Piece.word? = pieces.filterMap Piece.word? := by
  cases yes <;> simp [wrapped, Piece.word?, List.filterMap_cons]

theorem filterMap_word?_bracedPieces (members : List (List Piece)) :
    (bracedPieces members).filterMap Piece.word?
      = members.flatMap (List.filterMap Piece.word?) := by
  cases members with
  | nil => rfl
  | cons member rest =>
    rw [← filterMap_word?_intercalate (show Piece.semicolon.word? = none from rfl)]
    simp [bracedPieces, Piece.word?, List.filterMap_cons]

theorem words_array (element : TypeExpr) : (array element).words = element.words := by
  rw [words, pieces, List.filterMap_append, filterMap_word?_wrapped]
  exact List.append_nil _

theorem words_intersection (members : List TypeExpr) :
    (intersection members).words = members.flatMap words := by
  rw [words, pieces, filterMap_word?_intercalate rfl, factorPieces_eq_map, List.flatMap_map]
  simp only [filterMap_word?_wrapped]
  rfl

theorem words_object (properties : List Property) (index : Option TypeExpr) :
    (object ⟨properties, index⟩).words
      = properties.flatMap (fun p => p.type.words) ++ index.toList.flatMap words := by
  rw [words, pieces, objectPieces, filterMap_word?_bracedPieces, List.flatMap_append,
    propertyPieces_eq_map, List.flatMap_map]
  cases index <;> rfl

/-- Requiring names in a literal changes labels only. -/
theorem words_requireIn (required : RequiredSet) (type : TypeExpr) :
    (Node.requireIn required type).words = type.words := by
  cases type with
  | object body =>
    obtain ⟨properties, index⟩ := body
    rw [Node.requireIn_object, words_object, words_object, List.flatMap_map]
  | primitive | literal | array | union | intersection | reference | verbatim => rfl

end TypeExpr

namespace Keywords

variable {α β : Type}

/-- Whether the type of a child is written in the type of its schema. The values of further
properties are only named by a keyword. -/
def Writes (schema : Keywords α) : Edge → Prop
  | .property _ | .member _ => schema.shape = .object
  | .items => schema.shape = .array
  | .values => False

theorem writes_map (f : α → β) (schema : Keywords α) (edge : Edge) :
    (schema.map f).Writes edge ↔ schema.Writes edge := by
  cases edge <;> simp only [Writes, shape_map]

theorem isEmptyShape_of_mem_conjuncts {schema : Keywords TypeExpr} {conjunct : TypeExpr}
    (h : conjunct ∈ schema.conjuncts) : schema.isEmptyShape = false := by
  rw [isEmptyShape_eq, Bool.and_eq_false_iff, Bool.not_eq_false', List.isEmpty_eq_false_iff]
  rw [Node.conjuncts_eq, isEmpty_ownLiteral] at h
  rcases List.mem_append.1 h with hm | ho
  · obtain ⟨member, hmember, -⟩ := List.mem_map.1 hm
    exact .inr (List.ne_nil_of_mem hmember)
  · cases hown : schema.hasOwnLiteral with
    | true => exact .inl rfl
    | false => simp [hown] at ho

theorem mem_words_objectType {text : String} {schema : Keywords TypeExpr} {conjunct : TypeExpr}
    (h : conjunct ∈ schema.conjuncts) (ht : text ∈ conjunct.words) :
    text ∈ schema.objectType.words := by
  rw [flatMap_conjuncts (isEmptyShape_of_mem_conjuncts h) TypeExpr.words_intersection]
  exact List.mem_flatMap.2 ⟨conjunct, h, ht⟩

theorem ownLiteral_mem_conjuncts {schema : Keywords TypeExpr} {entry : String × TypeExpr}
    (h : entry ∈ schema.properties.getD []) : .object schema.ownLiteral ∈ schema.conjuncts := by
  have hown : schema.hasOwnLiteral = true := by
    rw [hasOwnLiteral, Bool.or_eq_true, Bool.not_eq_true', List.isEmpty_eq_false_iff]
    exact .inl (List.ne_nil_of_mem h)
  rw [Node.conjuncts_eq, isEmpty_ownLiteral, hown]
  exact List.mem_append_right _ (List.mem_singleton_self _)

/-- What is written of a child is written of its schema. -/
theorem mem_words_typeOf {container text : String} {schema : Keywords TypeExpr} {edge : Edge}
    {child : TypeExpr} (hedge : (edge, child) ∈ schema.edges) (hwrites : schema.Writes edge)
    (ht : text ∈ child.words) : text ∈ (schema.typeOf container).words := by
  rw [typeOf_eq]
  rw [mem_edges] at hedge
  cases edge with
  | property name =>
    rw [show schema.shape = .object from hwrites]
    refine mem_words_objectType (ownLiteral_mem_conjuncts hedge) ?_
    rw [ownLiteral, TypeExpr.words_object, List.flatMap_map]
    exact List.mem_append_left _ (List.mem_flatMap.2 ⟨_, hedge, ht⟩)
  | member index =>
    have hconjunct : Node.requireIn schema.required child ∈ schema.conjuncts := by
      rw [Node.conjuncts_eq]
      exact List.mem_append_left _ (List.mem_map_of_mem (List.mem_of_getElem? hedge))
    rw [show schema.shape = .object from hwrites]
    refine mem_words_objectType hconjunct ?_
    rwa [TypeExpr.words_requireIn]
  | items =>
    rw [show schema.shape = .array from hwrites]
    dsimp only
    rwa [show schema.items = some child from hedge, Option.getD_some, TypeExpr.words_array]
  | values => cases hwrites

end Keywords

/-! ### The nodes of a tree -/

namespace Node

/-- The node at a position, if all the edges to it are of this kind. -/
inductive Leads (along : SchemaNode → Edge → Prop) : Node → Position → Node → Prop where
  | here (node : Node) : Leads along node [] node
  | inside {schema : SchemaNode} {edge : Edge} {child target : Node} {position : Position}
    (h : (edge, child) ∈ schema.edges) (kind : along schema edge)
    (below : Leads along child position target) :
    Leads along (.pending schema) (edge :: position) target

/-- The node at a position. -/
abbrev Holds : Node → Position → Node → Prop := Leads fun _ _ => True

/-- The node at a position whose type is written in the type of the tree. -/
abbrev Writes : Node → Position → Node → Prop := Leads Keywords.Writes

variable {node target : Node} {position : Position}

theorem Writes.holds (h : node.Writes position target) : node.Holds position target := by
  induction h with
  | here node => exact .here node
  | inside h _ _ ih => exact .inside h trivial ih

/-- The words of what is shown are words of the type. -/
theorem Writes.mem_words {container text : String} (h : node.Writes position target)
    (ht : text ∈ (target.direct container).words) : text ∈ (node.direct container).words := by
  induction h with
  | here node => exact ht
  | @inside schema edge child target position hedge hwrites _ ih =>
    rw [direct_pending]
    refine Keywords.mem_words_typeOf ?_ ((Keywords.writes_map _ _ _).2 hwrites) (ih ht)
    rw [Keywords.edges_map]
    exact List.mem_map_of_mem hedge

/-- Another type and description do not change what stands below a schema. -/
theorem Holds.of_edited {schema : SchemaNode} {type description : Option String} {edge : Edge}
    (h : (pending { schema with type, description }).Holds (edge :: position) target) :
    (pending schema).Holds (edge :: position) target := by
  cases h with
  | inside hedge _ below => exact .inside hedge trivial below

theorem Holds.eq_nil_of_resolved {type : TypeExpr}
    (h : (resolved type).Holds position target) : position = [] := by
  cases h
  rfl

/-- A schema with a reference is not asked about. -/
theorem unanswered_of_ref {hooked : Bool} {schema : Schema} (hr : schema.ref = none)
    (names : (Assoc.keys (schema.properties.getD [])).Nodup) {answers : Answers}
    (hc : answers.Cover hooked schema) {edge : Edge} {child : Schema}
    (hchild : (edge, child) ∈ schema.keywords.edges) (hp : child.ref.isSome) :
    answers [edge] = none := by
  by_contra hne
  obtain ⟨-, hasked⟩ :=
    (hc [edge] (List.cons_ne_nil _ _)).1 (Option.isSome_iff_ne_none.2 hne)
  obtain ⟨-, entry, he, rfl, hnone⟩ := (Schema.mem_positions_own hr).1 hasked
  have hentry : (.property entry.1, entry.2) ∈ schema.keywords.edges := Keywords.mem_edges.2 he
  have hsame := Keywords.child?_of_mem_edges names hchild
  rw [Keywords.child?_of_mem_edges names hentry] at hsame
  cases hsame
  rw [hnone] at hp
  cases hp

theorem isResolved_settled_of_ref_eq_none (container : String) {schema : Schema}
    (h : schema.ref = none) (answers : Answers) :
    (settled container schema answers).isResolved = false := by
  rw [settled_of_ref_eq_none container h]
  rfl

/-- What stands below an edge of the tree stands in what is left of the child there, or in a fragment
in its place, unless it is a schema without a reference that its answer has changed. -/
theorem holds_below {container : String} {hooked : Bool} {schema : Schema} (hr : schema.ref = none)
    (names : (Assoc.keys (schema.properties.getD [])).Nodup) {answers : Answers}
    (hc : answers.Cover hooked schema) {edge : Edge}
    (ht : (settled container schema answers).Holds (edge :: position) target) :
    ∃ child, (edge, child) ∈ schema.keywords.edges
      ∧ ((∃ fragment, (answers [edge]).bind child.replacement? = some fragment
          ∧ fragment.Distinct ∧ (loaded container fragment).Holds position target)
        ∨ (answers [edge]).bind child.replacement? = none
          ∧ ((settled container child (answers.below edge)).Holds position target
            ∨ position = [] ∧ child.ref = none)) := by
  rw [settled_of_ref_eq_none container hr] at ht
  cases ht with
  | inside hedge _ hbelow =>
    rcases mem_edges_settledObject (fun edge => recorded_of_cover container hr hc) hedge with
      ⟨hnode, hanswer⟩ | ⟨property, mapping, hnode, hmapping, rfl⟩
    · obtain ⟨child, hchild, rfl⟩ := exists_of_mem_edges_settledChildren hnode
      have hnone : answers [edge] = none := by
        refine hanswer.elim id fun hresolved => ?_
        refine unanswered_of_ref hr names hc hchild ?_
        by_contra href
        rw [isResolved_settled_of_ref_eq_none container (Option.not_isSome_iff_eq_none.1 href)]
          at hresolved
        cases hresolved
      exact ⟨child, hchild, .inr ⟨by rw [hnone]; rfl, .inl hbelow⟩⟩
    · obtain ⟨child, hchild, hproperty⟩ := exists_of_mem_edges_settledChildren hnode
      have href : child.ref = none := by
        by_contra hne
        obtain ⟨pointer, hpointer⟩ := Option.ne_none_iff_exists'.1 hne
        rw [settled_of_ref container hpointer, loaded_of_ref container hpointer] at hproperty
        cases hproperty
      refine ⟨child, hchild, ?_⟩
      rw [hmapping, Option.bind_some, ← hproperty]
      rcases answered_cases container (type_of_settled hproperty.symm) mapping with
        ⟨type, description, hreplacement, hvalue⟩ | ⟨fragment, hreplacement, hfragment, hvalue⟩
        | ⟨type, hreplacement, hvalue⟩
      · rw [hvalue] at hbelow
        refine .inr ⟨hreplacement, ?_⟩
        cases position with
        | nil => exact .inr ⟨rfl, href⟩
        | cons => exact .inl (Holds.of_edited hbelow)
      · rw [hvalue] at hbelow
        exact .inl ⟨fragment, hreplacement, hfragment, hbelow⟩
      · rw [hvalue] at hbelow
        obtain rfl := Holds.eq_nil_of_resolved hbelow
        exact .inr ⟨hreplacement, .inr ⟨rfl, href⟩⟩

/-- Where a reference is written stands its look-up, in the document and in the fragments that answers
put in it. -/
theorem lookup_of_holds (container : String) {hooked : Bool} {schema : Schema} (h : schema.Distinct)
    {answers : Answers} (hc : answers.Cover hooked schema)
    (ht : (settled container schema answers).Holds position target) {written : Schema}
    {spliced : Bool} (hw : schema.writtenAt answers position = some (written, spliced))
    {pointer : String} (hp : written.ref = some pointer) :
    target = .resolved (.reference container (Pointer.name pointer).value) := by
  induction position generalizing hooked schema answers spliced with
  | nil =>
    cases hw
    rw [settled_of_ref container hp, loaded_of_ref container hp] at ht
    cases ht
    rfl
  | cons edge position ih =>
    obtain ⟨names, below⟩ := h
    cases hr : schema.ref with
    | some other =>
      rw [settled_of_ref container hr, loaded_of_ref container hr] at ht
      cases ht
    | none =>
      obtain ⟨child, hchild, hcases⟩ := holds_below hr names hc ht
      rw [Schema.writtenAt, Keywords.child?_of_mem_edges names hchild, Option.bind_some] at hw
      rcases hcases with ⟨fragment, hreplacement, hfragment, hloaded⟩ | ⟨hreplacement, hkept⟩
      · -- a fragment is a document of its own, in which nothing is asked about
        rw [hreplacement] at hw
        obtain ⟨other, hat, heq⟩ := Option.map_eq_some_iff.1 hw
        cases heq
        rw [← settled_of_unanswered container fragment fun _ => rfl] at hloaded
        have hwritten : fragment.writtenAt (fun _ => none) position = some (written, false) := by
          rw [Schema.writtenAt_of_unanswered fun _ => rfl, hat]
          rfl
        exact ih hfragment (Answers.cover_none fragment) hloaded hwritten
      · rw [hreplacement] at hw
        rcases hkept with hholds | ⟨rfl, hnone⟩
        · exact ih (below child (Keywords.mem_children_of_mem_edges hchild))
            (hc.below hr names hchild) hholds hw
        · cases hw
          rw [hnone] at hp
          cases hp

end Node
end SchemaTypes
