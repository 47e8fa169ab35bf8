import SchemaTypes.Proofs.DeclarationText
import SchemaTypes.Proofs.PropertyFaces
import SchemaTypes.Proofs.RequiredConjuncts

/-! The types that a run finds, as those of the trees that its answers settle, and the source that it
makes of them. -/
namespace SchemaTypes

open Steps (outcome)

variable {σ : Type}

/-- The types of definitions without a hook. -/
def Schema.typesIn (container : String) (definitions : List (String × Schema)) :
    List (String × TypeExpr) :=
  definitions.map fun entry => (entry.1, entry.2.typeIn container)

namespace Generator

/-- The type of every definition is that of the tree which the hook leaves: the one that its answers
settle. Without a hook there are no answers. -/
theorem settled_of_recorded {generator : Generator σ} {definitions : List (String × Schema)}
    (h : ∀ entry ∈ definitions, entry.2.Distinct) {state after : σ} {before transcript : Transcript}
    {nodes : List (String × Node)}
    (hrun : (outcome (generator.recorded.resolveAll
      (definitions.map fun (name, schema) => (name, .ofSchema schema))) (state, before)).value
        = (.ok nodes, after, transcript)) :
    before <+: transcript ∧ List.Forall₂ (fun entry node => ∃ answers : Answers,
      answers.Cover generator.mapper.isSome entry.2
        ∧ generator.Leaves transcript entry.2 answers
          (Node.settled generator.options.container entry.2 answers)
        ∧ node = (entry.1, .resolved
          ((Node.settled generator.options.container entry.2 answers).direct
            generator.options.container))) definitions nodes := by
  induction definitions generalizing state before nodes with
  | nil =>
    cases hrun
    exact ⟨List.prefix_rfl, .nil⟩
  | cons entry rest ih =>
    obtain ⟨first, ⟨middle, so⟩, others, hfirst, hothers, rfl⟩ := value_resolveAll_cons hrun
    obtain ⟨hbefore, answers, hcover, hleaves, hnode, hreference⟩ :=
      leaves_of_resolve (h entry (by simp)) hfirst
    obtain ⟨hso, hrest⟩ := ih (fun entry he => h entry (by simp [he])) hothers
    refine ⟨hbefore.trans hso, .cons ⟨answers, hcover, hleaves transcript hso, ?_⟩ hrest⟩
    rw [hnode, Node.resolveComposites_resolvePrimitives generator.options.container hreference]

theorem settled_of_resolveAll {generator : Generator σ} {definitions : List (String × Schema)}
    (h : ∀ entry ∈ definitions, entry.2.Distinct) {state after : σ} {nodes : List (String × Node)}
    (hrun : (outcome (generator.resolveAll
      (definitions.map fun (name, schema) => (name, .ofSchema schema))) state).value
        = (.ok nodes, after)) :
    ∃ transcript, (outcome (generator.recorded.resolveAll
        (definitions.map fun (name, schema) => (name, .ofSchema schema))) (state, [])).value
          = (.ok nodes, after, transcript)
      ∧ List.Forall₂ (fun entry node => ∃ answers : Answers,
        answers.Cover generator.mapper.isSome entry.2
          ∧ generator.Leaves transcript entry.2 answers
            (Node.settled generator.options.container entry.2 answers)
          ∧ node = (entry.1, .resolved
            ((Node.settled generator.options.container entry.2 answers).direct
              generator.options.container))) definitions nodes := by
  have hforgets := congrArg Noted.value (outcome_recorded_resolveAll generator
    (definitions.map fun (name, schema) => (name, .ofSchema schema)) state [])
  rw [Noted.value_map, hrun] at hforgets
  rcases hrecorded : (outcome (generator.recorded.resolveAll
    (definitions.map fun (name, schema) => (name, .ofSchema schema))) (state, [])).value with
    ⟨result, last, transcript⟩
  rw [hrecorded] at hforgets
  cases hforgets
  exact ⟨transcript, hrecorded, (settled_of_recorded h hrecorded).2⟩

/-- The source is made of what the passes make of the definitions, and of nothing else. -/
theorem value_source_of_resolveAll {generator : Generator σ} {definitions : List (String × Schema)}
    {state after : σ} {nodes : List (String × Node)}
    (hrun : (outcome (generator.resolveAll
      (definitions.map fun (name, schema) => (name, .ofSchema schema))) state).value
        = (.ok nodes, after)) :
    (outcome (generator.source ⟨some definitions⟩) state).value
      = ((Declaration.file nodes generator.options.container generator.options.banner).mapError
          .unresolved, after) := by
  show (outcome (generator.sourceOf _) state).value = _
  rw [sourceOf, Steps.value_outcome_bind, Steps.value_outcome_lift]
  show (outcome (generator.resolveAll _ >>= _) state).value = _
  rw [Steps.value_outcome_bind, hrun]
  dsimp only
  cases Declaration.file nodes generator.options.container generator.options.banner <;> rfl

/-- Without a hook every definition has the type of its schema. -/
theorem value_resolveAll_of_none {generator : Generator σ} (h : generator.mapper = none)
    (definitions : List (String × Schema)) (state : σ) :
    (outcome (generator.resolveAll
      (definitions.map fun (name, schema) => (name, .ofSchema schema))) state).value
      = (.ok (Declaration.ofTypes
          (Schema.typesIn generator.options.container definitions)), state) := by
  refine (congrFun (quiet_resolveAll_of_none h _) state).trans ?_
  rw [Declaration.ofTypes, Schema.typesIn, List.map_map, List.map_map]
  rfl

theorem value_source_of_none {generator : Generator σ} (h : generator.mapper = none)
    (definitions : List (String × Schema)) (state : σ) :
    (outcome (generator.source ⟨some definitions⟩) state).value
      = (.ok (generator.options.banner ++ Declaration.body generator.options.container
          (Schema.typesIn generator.options.container definitions)), state) := by
  rw [value_source_of_resolveAll (value_resolveAll_of_none h definitions state),
    Declaration.file_ofTypes]
  rfl

end Generator
end SchemaTypes
