import SchemaTypes.Proofs.RunTypes
import SchemaTypes.Proofs.TypePieces

/-! The types of a run stay inside one grammar, whatever is written and whatever a hook answers. -/
namespace SchemaTypes

open Steps (outcome)

variable {σ : Type}

namespace Node

variable {container : String} {hooked : Bool}

theorem isText_loaded (container : String) (schema : Schema) :
    (loaded container schema).isText = false := by
  cases hr : schema.ref with
  | some pointer =>
    rw [loaded_of_ref container hr]
    rfl
  | none =>
    rw [loaded_of_ref_eq_none container hr]
    rfl

theorem isText_settled (container : String) (schema : Schema) (answers : Answers) :
    (settled container schema answers).isText = false := by
  cases hr : schema.ref with
  | some pointer =>
    rw [settled_of_ref container hr]
    exact isText_loaded container schema
  | none =>
    rw [settled_of_ref_eq_none container hr]
    rfl

theorem isSound_loaded {schema : Schema} (h : schema.Distinct) :
    (loaded container schema).IsSound container hooked := by
  induction schema using Schema.induction with
  | step schema ih =>
    obtain ⟨names, below⟩ := h
    cases hr : schema.ref with
    | some pointer =>
      rw [loaded_of_ref container hr]
      exact .resolved (.reference _)
    | none =>
      rw [loaded_of_ref_eq_none container hr]
      have places : schema.keywords.Places (fun _ => false) hooked := ⟨names, nofun⟩
      refine .pending (places.map fun child _ htext => ?_) fun node hnode _ => ?_
      · rw [isText_loaded] at htext
        cases htext
      · rw [Keywords.children_map] at hnode
        obtain ⟨child, hc, rfl⟩ := List.mem_map.1 hnode
        exact ih child hc (below child hc)

/-- An answer leaves text, or a tree that is sound if the property is. -/
theorem isSound_answered {property : SchemaNode} (h : (pending property).IsSound container hooked)
    (mapping : PropertyMapping) (hnot : (answered container property mapping).value.isText = false) :
    (answered container property mapping).value.IsSound container hooked := by
  cases h with
  | pending places below =>
    have hedited (type description : Option String) :
        (pending { property with type, description }).IsSound container hooked :=
      .pending ⟨places.names, places.texts⟩ below
    unfold answered at hnot ⊢
    split
    · exact hedited _ _
    next hne =>
      rw [if_neg hne] at hnot
      split
      · exact hedited _ _
      · exact hedited _ _
      next fragment hread =>
        obtain ⟨text, -, htext⟩ := Option.map_eq_some_iff.1 hread
        obtain ⟨names, fragments⟩ := distinct_of_ofText htext
        exact isSound_loaded (.mk names fragments)
      next text hread =>
        rw [hread] at hnot
        cases hnot

theorem isSound_settled {schema : Schema} (h : schema.Distinct) {answers : Answers}
    (hc : answers.Cover hooked schema) :
    (settled container schema answers).IsSound container hooked := by
  induction schema using Schema.induction generalizing answers with
  | step schema ih =>
    obtain ⟨names, below⟩ := h
    cases hr : schema.ref with
    | some pointer =>
      rw [settled_of_ref container hr]
      exact isSound_loaded (.mk names below)
    | none =>
      have hchild {edge : Edge} {node : Node}
          (h : (edge, node) ∈ (settledChildren container schema answers).edges) :
          node.IsSound container hooked ∧ node.isText = false := by
        obtain ⟨child, hchild, rfl⟩ := exists_of_mem_edges_settledChildren h
        have hmem := Keywords.mem_children_of_mem_edges hchild
        exact ⟨ih child hmem (below child hmem) (hc.below hr names hchild),
          isText_settled container child _⟩
      rw [settled_of_ref_eq_none container hr]
      refine .pending ⟨?_, fun edge node hedge htext => ?_⟩ fun node hnode hnot => ?_
      · rw [keys_settledObject, keys_settledChildren]
        exact names
      · rcases mem_edges_settledObject (fun edge => recorded_of_cover container hr hc) hedge with
          ⟨hold, -⟩ | ⟨property, mapping, -, hanswer, -⟩
        · exact absurd htext (Bool.eq_false_iff.1 (hchild hold).2)
        · have hsome : (answers [edge]).isSome := Option.isSome_iff_exists.2 ⟨mapping, hanswer⟩
          obtain ⟨-, name, -, hname⟩ := recorded_of_cover container hr hc hsome
          exact ⟨((hc [edge] (List.cons_ne_nil _ _)).1 hsome).1, name, hname⟩
      · rw [← Keywords.map_snd_edges] at hnode
        obtain ⟨⟨edge, _⟩, hedge, rfl⟩ := List.mem_map.1 hnode
        rcases mem_edges_settledObject (fun edge => recorded_of_cover container hr hc) hedge with
          ⟨hold, -⟩ | ⟨property, mapping, hproperty, -, hanswered⟩
        · exact (hchild hold).1
        · rw [hanswered] at hnot ⊢
          exact isSound_answered (hchild hproperty).1 mapping hnot

end Node
namespace Generator

/-- The types of a run are in the grammar, and so is their text: it is one operand, an operand stands
wherever one is needed, and text from outside stands between the label of a property and the end of
its member only. -/
theorem types_stay_in_the_grammar (generator : Generator σ)
    {definitions : List (String × Schema)} (h : ∀ entry ∈ definitions, entry.2.Distinct)
    {state after : σ} {nodes : List (String × Node)}
    (hrun : (outcome (generator.resolveAll
      (definitions.map fun (name, schema) => (name, .ofSchema schema))) state).value
        = (.ok nodes, after)) :
    (outcome (generator.source ⟨some definitions⟩) state).value
      = ((Declaration.file nodes generator.options.container generator.options.banner).mapError
          .unresolved, after)
    ∧ List.Forall₂ (fun entry node => ∃ type, node = (entry.1, .resolved type)
      ∧ type.IsGenerated generator.options.container generator.mapper.isSome
      ∧ Piece.textOf type.pieces = type.text
      ∧ Piece.IsOperand type.pieces
      ∧ .emptyBraces ∉ type.pieces
      ∧ ∀ front text back, type.pieces = front ++ .verbatim text :: back →
        (∃ label, front.getLast? = some (.label label))
          ∧ (back.head? = some .semicolon ∨ back.head? = some .rightBrace)) definitions nodes := by
  refine ⟨value_source_of_resolveAll hrun, ?_⟩
  obtain ⟨transcript, -, hsettled⟩ := settled_of_resolveAll h hrun
  have hdistinct := (List.forall₂_and_left definitions nodes).2 ⟨h, hsettled⟩
  refine hdistinct.imp fun entry node => ?_
  rintro ⟨hentry, answers, hcover, -, rfl⟩
  have hsound : (Node.settled generator.options.container entry.2 answers).IsSound
      generator.options.container generator.mapper.isSome := Node.isSound_settled hentry hcover
  have hgenerated := hsound.isGenerated_direct
  exact ⟨_, rfl, hgenerated, TypeExpr.textOf_pieces _, hgenerated.isOperand, hgenerated.beside⟩

/-- A hook that answers dates with a text of the target language that is empty. -/
def dateHook : Mapper Unit := fun schema context => pure
  ⟨if schema.format = some "date" then some "" else context.type, context.optional, none⟩

def datedDefinitions : List (String × Schema) :=
  [("Pet", { properties := some [("born", { type := some "string", format := some "date" }),
               ("owner", { ref := some "#/definitions/Owner" })]
             additional := some (.allowed true)
             allOf := some [{ enum := some [.string "a", .string "b"] }] })]

def datedType : TypeExpr :=
  .intersection [.union [.literal "a", .literal "b"],
    .object ⟨[⟨"born", .verbatim "", true, none⟩,
      ⟨"owner", .reference "definitions" "Owner", true, none⟩], some .any⟩]

theorem datedDefinitions_distinct : ∀ entry ∈ datedDefinitions, entry.2.Distinct := by
  intro entry he
  obtain rfl := List.mem_singleton.1 he
  refine .mk (by decide) fun child hc => Schema.distinct_of_children_eq_nil ?_
  have hc : child ∈ [_, _, _] := hc
  simp only [List.mem_cons, List.not_mem_nil, or_false] at hc
  rcases hc with rfl | rfl | rfl <;> rfl

/-- A union as a member, a property whose type is text from outside, and one that is a look-up. -/
theorem types_stay_in_the_grammar_dated :
    (∀ entry ∈ datedDefinitions, entry.2.Distinct)
    ∧ (outcome (resolveAll { mapper := some dateHook }
      (datedDefinitions.map fun (name, schema) => (name, .ofSchema schema))) ()).value
        = (.ok [("Pet", Node.resolved datedType)], ())
    ∧ datedType.IsGenerated "definitions" true
    ∧ Piece.IsOperand datedType.pieces := by
  have hrun : (outcome (resolveAll { mapper := some dateHook }
      (datedDefinitions.map fun (name, schema) => (name, .ofSchema schema))) ()).value
        = (.ok [("Pet", Node.resolved datedType)], ()) := by
    cbv
  obtain ⟨-, htypes⟩ :=
    types_stay_in_the_grammar { mapper := some dateHook } datedDefinitions_distinct hrun
  obtain ⟨⟨type, heq, hgenerated, -, hoperand, -⟩, -⟩ := List.forall₂_cons.1 htypes
  cases heq
  exact ⟨datedDefinitions_distinct, hrun, hgenerated, hoperand⟩

end Generator
end SchemaTypes
