import SchemaTypes.Proofs.Questions

/-! The positions of the properties that are asked about. Each stands once, so answers in the order
of the questions are answers at these positions. -/
namespace SchemaTypes
namespace Node

/-- An object asks about its properties that are still schemas. -/
theorem mem_ownQuestions {schema : SchemaNode} {asked : Position × Question} :
    asked ∈ ownQuestions schema ↔ schema.shape = .object
      ∧ ∃ name property, (name, .pending property) ∈ schema.properties.getD []
        ∧ asked = ([.property name],
          .ofProperty property (context schema.required name property)) := by
  unfold ownQuestions
  split
  next hs =>
    rw [List.mem_filterMap]
    constructor
    · rintro ⟨⟨name, property | type⟩, he, hasked⟩
      · exact ⟨hs, name, property, he, (Option.some.inj hasked).symm⟩
      · cases hasked
    · rintro ⟨-, name, property, he, rfl⟩
      exact ⟨(name, .pending property), he, rfl⟩
  next hs => simp [hs]

theorem ne_nil_of_mem_questions {node : Node} {asked : Position × Question}
    (h : asked ∈ node.questions) : asked.1 ≠ [] := by
  cases node with
  | resolved type => simp at h
  | pending schema =>
    rw [questions_pending, List.mem_append, List.mem_flatMap] at h
    rcases h with ⟨child, -, hchild⟩ | hown
    · obtain ⟨inner, -, rfl⟩ := List.mem_map.1 hchild
      exact List.cons_ne_nil _ _
    · obtain ⟨-, name, property, -, rfl⟩ := mem_ownQuestions.1 hown
      exact List.cons_ne_nil _ _

theorem ownPositions_sublist (required : RequiredSet) (entries : List (String × Node)) :
    ((entries.filterMap (entryQuestion required)).map Prod.fst).Sublist
      ((Assoc.keys entries).map fun name => [.property name]) := by
  induction entries with
  | nil => exact .slnil
  | cons entry rest ih =>
    obtain ⟨name, property | type⟩ := entry
    · exact ih.cons_cons [.property name]
    · exact ih.cons [.property name]

theorem nodup_ownPositions {schema : SchemaNode}
    (names : (Assoc.keys (schema.properties.getD [])).Nodup) :
    ((ownQuestions schema).map Prod.fst).Nodup := by
  have hinjective : Function.Injective fun name => [Edge.property name] := by
    intro a b h
    exact Edge.property.inj (List.cons.inj h).1
  unfold ownQuestions
  split
  · exact (names.map hinjective).sublist (ownPositions_sublist _ _)
  · exact List.nodup_nil

theorem map_fst_questions_pending (schema : SchemaNode) : (pending schema).questions.map Prod.fst
    = (schema.edges.flatMap fun child => (child.2.questions.map Prod.fst).map (child.1 :: ·))
      ++ (ownQuestions schema).map Prod.fst := by
  simp only [questions_pending, List.map_append, List.map_flatMap, List.map_map, Function.comp_def]

/-- No position of a tree is asked about twice. -/
theorem nodup_positions {node : Node} (h : node.Named) : (node.questions.map Prod.fst).Nodup := by
  induction node using Node.induction with
  | resolved type => simp
  | pending schema ih =>
    obtain ⟨names, below⟩ := everywhere_pending_iff.1 h
    rw [map_fst_questions_pending, List.nodup_append', List.nodup_flatMap]
    refine ⟨⟨fun child hc => ?_, ?_⟩, nodup_ownPositions names, ?_⟩
    · have hchild := Keywords.mem_children_of_mem_edges hc
      exact (ih child.2 hchild (below child.2 hchild)).map fun _ _ heq => (List.cons.inj heq).2
    · have hedges : (schema.edges.map Prod.fst).Nodup := Keywords.nodup_map_fst_edges names
      refine (List.pairwise_map.1 hedges).imp fun {child other} hne => ?_
      refine List.disjoint_left.2 ?_
      intro position hchild hother
      obtain ⟨inner, -, rfl⟩ := List.mem_map.1 hchild
      obtain ⟨_, -, heq⟩ := List.mem_map.1 hother
      exact hne (List.cons.inj heq).1.symm
    · rw [List.disjoint_left]
      intro position hbelow hown
      obtain ⟨child, -, hmem⟩ := List.mem_flatMap.1 hbelow
      obtain ⟨inner, hinner, rfl⟩ := List.mem_map.1 hmem
      obtain ⟨asked, hasked, rfl⟩ := List.mem_map.1 hinner
      obtain ⟨own, howned, heq⟩ := List.mem_map.1 hown
      obtain ⟨-, name, property, -, rfl⟩ := mem_ownQuestions.1 howned
      exact ne_nil_of_mem_questions hasked (List.cons.inj heq).2.symm

end Node

namespace Schema

/-- The positions of the properties asked about, in the order of the questions. -/
def positions (schema : Schema) : List Position := schema.questions.map Prod.fst

theorem ownPosition_eq {required : List String} {entry : String × Schema}
    {asked : Position × Question} (h : ownQuestion required entry = some asked) :
    asked.1 = [.property entry.1] ∧ entry.2.ref = none := by
  unfold ownQuestion at h
  split at h
  · cases h
  next hr =>
    cases h
    exact ⟨rfl, Option.not_isSome_iff_eq_none.1 hr⟩

theorem positions_of_ref {schema : Schema} {pointer : String} (h : schema.ref = some pointer) :
    schema.positions = [] := by
  rw [positions, questions_of_ref h, List.map_nil]

theorem positions_of_ref_eq_none {schema : Schema} (h : schema.ref = none) : schema.positions
    = (schema.keywords.edges.flatMap fun child => child.2.positions.map (child.1 :: ·))
      ++ schema.ownQuestions.map Prod.fst := by
  simp only [positions, questions_of_ref_eq_none h, List.map_append, List.map_flatMap, List.map_map,
    Function.comp_def]

theorem mem_ownPositions {schema : Schema} {position : Position} :
    position ∈ schema.ownQuestions.map Prod.fst ↔ schema.keywords.shape = .object
      ∧ ∃ entry ∈ schema.properties.getD [], position = [.property entry.1]
        ∧ entry.2.ref = none := by
  unfold ownQuestions
  split
  next hs =>
    simp only [List.mem_map, List.mem_filterMap]
    constructor
    · rintro ⟨asked, ⟨entry, he, hasked⟩, rfl⟩
      obtain ⟨hposition, hr⟩ := ownPosition_eq hasked
      exact ⟨hs, entry, he, hposition, hr⟩
    · rintro ⟨-, entry, he, rfl, hr⟩
      have hopen : ¬entry.2.ref.isSome := by simp [hr]
      exact ⟨_, ⟨entry, he, if_neg hopen⟩, rfl⟩
  next hs => simp [hs]

theorem ne_nil_of_mem_positions {schema : Schema} {position : Position}
    (h : position ∈ schema.positions) : position ≠ [] := by
  cases hr : schema.ref with
  | some pointer => simp [positions_of_ref hr] at h
  | none =>
    rw [positions_of_ref_eq_none hr, List.mem_append, List.mem_flatMap] at h
    rcases h with ⟨child, -, hchild⟩ | h
    · obtain ⟨inner, -, rfl⟩ := List.mem_map.1 hchild
      exact List.cons_ne_nil _ _
    · obtain ⟨-, entry, -, rfl, -⟩ := mem_ownPositions.1 h
      exact List.cons_ne_nil _ _

/-- Below a child the positions are those of the child. -/
theorem mem_positions_below {schema : Schema} (hr : schema.ref = none)
    (names : (Assoc.keys (schema.properties.getD [])).Nodup) {edge : Edge} {child : Schema}
    (h : (edge, child) ∈ schema.keywords.edges) {position : Position} (hp : position ≠ []) :
    edge :: position ∈ schema.positions ↔ position ∈ child.positions := by
  rw [positions_of_ref_eq_none hr, List.mem_append, List.mem_flatMap]
  constructor
  · rintro (⟨other, hother, hmem⟩ | hown)
    · obtain ⟨inner, hinner, heq⟩ := List.mem_map.1 hmem
      obtain ⟨rfl, rfl⟩ := List.cons.inj heq
      have hchild := Keywords.child?_of_mem_edges names hother
      rw [Keywords.child?_of_mem_edges names h] at hchild
      rwa [Option.some.inj hchild]
    · obtain ⟨-, entry, -, heq, -⟩ := mem_ownPositions.1 hown
      exact absurd (List.cons.inj heq).2 hp
  · intro hmem
    exact .inl ⟨(edge, child), h, List.mem_map.2 ⟨position, hmem, rfl⟩⟩

/-- The own properties of an object are asked about if they have no reference. -/
theorem mem_positions_own {schema : Schema} (hr : schema.ref = none) {edge : Edge} :
    [edge] ∈ schema.positions ↔ schema.keywords.shape = .object
      ∧ ∃ entry ∈ schema.properties.getD [], edge = .property entry.1 ∧ entry.2.ref = none := by
  rw [positions_of_ref_eq_none hr, List.mem_append, List.mem_flatMap, mem_ownPositions]
  constructor
  · rintro (⟨child, -, hmem⟩ | ⟨hs, entry, he, heq, href⟩)
    · obtain ⟨inner, hinner, heq⟩ := List.mem_map.1 hmem
      exact absurd (List.cons.inj heq).2 (ne_nil_of_mem_positions hinner)
    · exact ⟨hs, entry, he, (List.cons.inj heq).1, href⟩
  · rintro ⟨hs, entry, he, rfl, href⟩
    exact .inr ⟨hs, entry, he, rfl, href⟩

/-- No position is asked about twice. -/
theorem nodup_positions {schema : Schema} (h : schema.Distinct) : schema.positions.Nodup := by
  rw [positions, ← Node.questions_loaded ""]
  exact Node.nodup_positions (Node.named_loaded "" h)

end Schema

namespace Answers

/-- Answers at the positions that are asked about, and at no other, or no answers without a hook. -/
def Cover (hooked : Bool) (schema : Schema) (answers : Answers) : Prop :=
  ∀ position ≠ [], (answers position).isSome ↔ hooked ∧ position ∈ schema.positions

/-- Answers in the order of the positions. -/
def ofList : List Position → List PropertyMapping → Position → Option PropertyMapping
  | position :: positions, answer :: given, sought =>
    if sought = position then some answer else ofList positions given sought
  | _, _, _ => none

theorem ofList_of_notMem {positions : List Position} (given : List PropertyMapping)
    {sought : Position} (h : sought ∉ positions) : ofList positions given sought = none := by
  induction positions generalizing given with
  | nil => rfl
  | cons position rest ih =>
    rw [List.mem_cons, not_or] at h
    obtain ⟨hne, hrest⟩ := h
    cases given with
    | nil => rfl
    | cons answer others => rw [ofList, if_neg hne, ih others hrest]

theorem map_ofList {positions : List Position} (h : positions.Nodup) {given : List PropertyMapping}
    (count : given.length = positions.length) :
    positions.map (ofList positions given) = given.map some := by
  induction positions generalizing given with
  | nil => rw [List.length_eq_zero_iff.1 count, List.map_nil, List.map_nil]
  | cons position rest ih =>
    obtain ⟨hnew, hrest⟩ := List.nodup_cons.1 h
    cases given with
    | nil => cases count
    | cons answer others =>
      have hothers : rest.map (ofList (position :: rest) (answer :: others))
          = rest.map (ofList rest others) := by
        refine List.map_congr_left fun sought hs => ?_
        rw [ofList, if_neg]
        rintro rfl
        exact hnew hs
      rw [List.map_cons, List.map_cons, hothers, ih hrest (Nat.succ.inj count), ofList, if_pos rfl]

/-- Answers to all questions cover a schema. -/
theorem cover_of_map_eq {schema : Schema} {answers : Answers} {given : List PropertyMapping}
    (h : schema.positions.map answers = given.map some)
    (others : ∀ position ∉ schema.positions, answers position = none) :
    answers.Cover true schema := by
  intro position _
  by_cases hp : position ∈ schema.positions
  · have hmem : answers position ∈ schema.positions.map answers := List.mem_map_of_mem hp
    rw [h] at hmem
    obtain ⟨answer, -, hanswer⟩ := List.mem_map.1 hmem
    simp [hp, ← hanswer]
  · simp [hp, others position hp]

theorem cover_none (schema : Schema) : Cover false schema fun _ => none := by
  intro position _
  simp

end Answers
end SchemaTypes
