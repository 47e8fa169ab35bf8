import SchemaTypes.Proofs.Direct
import SchemaTypes.Proofs.Steps

/-! Every definition gets a type, whatever a hook answers: what one pass leaves behind is what the
next one needs, also where a hook puts new schemas into the tree. -/
namespace SchemaTypes

open Steps (outcome)

variable {σ : Type}

/-- Some call of the hook fails with the message. -/
def Mapper.FailsWith (mapper : Mapper σ) (message : String) : Prop :=
  ∃ schema context state state', mapper schema context state = (.error message, state')

namespace Node

theorem outcome_ask (mapper : Mapper σ) (schema : SchemaNode) (context : PropertyContext)
    (state : σ) :
    outcome (mapper.ask schema context) state = ⟨mapper schema context state, []⟩ := rfl

theorem ensures_ask (mapper : Mapper σ) (schema : SchemaNode) (context : PropertyContext)
    (said : Notice → Prop) :
    Ensures (mapper.ask schema context) (fun _ => True) mapper.FailsWith said := by
  intro state
  rw [outcome_ask]
  rcases h : mapper schema context state with ⟨e | _, state'⟩
  · exact ⟨by simp, schema, context, state, state', h⟩
  · exact ⟨by simp, trivial⟩

/-- Whatever is answered, no reference gets into the tree. -/
theorem noReference_answered (container : String) {schema : SchemaNode}
    (h : (pending schema).NoReference) (mapping : PropertyMapping) :
    (answered container schema mapping).value.NoReference := by
  obtain ⟨here, below⟩ := everywhere_pending_iff.1 h
  unfold answered
  split
  · exact .pending here below
  · split
    · exact .pending here below
    · exact .pending here below
    · exact noReference_resolveReferences ..
    · exact .resolved _

theorem pendingChild_notMem_answered (container : String) (schema : SchemaNode)
    (mapping : PropertyMapping) :
    .pendingChild ∉ (answered container schema mapping).notices := by
  unfold answered
  split
  · simp
  · split <;> simp [pendingChild_notMem_resolveReferences]

theorem ensures_answered (container : String) {schema : SchemaNode}
    (h : (pending schema).NoReference) (mapping : PropertyMapping) (bad : String → Prop) :
    Ensures (liftM (answered container schema mapping) : Asking σ Node) NoReference bad
      (· ≠ .pendingChild) := by
  refine .lift (noReference_answered container h mapping) ?_
  rintro notice hn rfl
  exact pendingChild_notMem_answered container schema mapping hn

theorem ensures_mapProperties (mapper : Mapper σ) (container : String) (owner : Owner)
    {entries : List (String × Node)} (h : ∀ entry ∈ entries, entry.2.NoReference) :
    Ensures (mapProperties mapper container owner entries)
      (fun result => ∀ entry ∈ result.2, entry.2.NoReference) mapper.FailsWith
      (· ≠ .pendingChild) := by
  induction entries generalizing owner with
  | nil => exact .pure (by simp)
  | cons entry rest ih =>
    have hr : ∀ entry ∈ rest, entry.2.NoReference := fun e he => h e (by simp [he])
    obtain ⟨name, schema | type⟩ := entry
    · simp only [mapProperties]
      refine (ensures_ask mapper schema _ _).bind fun mapping _ => ?_
      refine (ensures_answered container (h _ List.mem_cons_self) mapping _).bind fun node hnode => ?_
      refine (ih (owner.record name mapping) hr).bind fun result hresult => .pure ?_
      simpa using ⟨hnode, fun a b => hresult (a, b)⟩
    · simp only [mapProperties]
      refine (ih owner hr).bind fun result hresult => .pure ?_
      simpa using ⟨.resolved type, fun a b => hresult (a, b)⟩

theorem ensures_mapObject (mapper : Mapper σ) (container : String) {schema : SchemaNode}
    (h : (pending schema).NoReference) :
    Ensures (mapObject mapper container schema) NoReference mapper.FailsWith
      (· ≠ .pendingChild) := by
  obtain ⟨here, below⟩ := everywhere_pending_iff.1 h
  unfold mapObject
  split
  next entries _ hentries =>
    have he : ∀ entry ∈ entries, entry.2.NoReference := fun entry he =>
      below entry.2 (Keywords.mem_children_of_mem_properties (by simpa [hentries] using he))
    refine (ensures_mapProperties mapper container _ he).bind fun result hresult => .pure ?_
    refine .pending here fun child hc => ?_
    rcases Keywords.mem_children_of_properties hc with ⟨entry, he, rfl⟩ | hc
    · exact hresult entry he
    · exact below child hc
  next => exact .pure h

theorem ensures_applyMapper (mapper : Mapper σ) (container : String) {node : Node}
    (h : node.NoReference) :
    Ensures (applyMapper mapper container node) NoReference mapper.FailsWith
      (· ≠ .pendingChild) := by
  induction node using Node.induction with
  | resolved type => exact .pure h
  | pending schema ih =>
    obtain ⟨here, below⟩ := everywhere_pending_iff.1 h
    rw [applyMapper, rebuildM_pending, pure_bind]
    refine (Ensures.forall_mapChildrenM fun child hc => ih child hc (below child hc)).bind
      fun rebuilt hrebuilt => ensures_mapObject mapper container (.pending ?_ hrebuilt.2)
    exact (congrArg Keywords.ref hrebuilt.1).trans here

end Node

namespace Generator

/-- The generator's hook has a call that fails with the message. -/
def HookFailsWith (generator : Generator σ) (message : String) : Prop :=
  ∃ mapper, generator.mapper = some mapper ∧ mapper.FailsWith message

/-- The error of a run comes from the hook. -/
def HookError (generator : Generator σ) (error : GenerateError) : Prop :=
  ∃ message, error = .mapper message ∧ generator.HookFailsWith message

theorem outcome_asking {α : Type} (step : Asking σ α) (state : σ) :
    outcome (asking step) state
      = (fun run => (run.1.mapError .mapper, run.2)) <$> outcome step state := by
  simp only [outcome, asking, ExceptT.run_mk, StateT.run_bind, map_eq_pure_bind]
  refine bind_congr fun run => ?_
  obtain ⟨_ | _, _⟩ := run <;> rfl

theorem outcome_formatting {α : Type} (step : ExceptT FormatError (StateM σ) α) (state : σ) :
    outcome (formatting step) state
      = pure ((step.run state : Except _ _ × σ).1.mapError .format,
          (step.run state : Except _ _ × σ).2) := by
  simp only [outcome, formatting, ExceptT.run_mk, StateT.run]
  rcases (step.run state : Except _ _ × σ) with ⟨_ | _, _⟩ <;> rfl

theorem value_outcome_asking {α : Type} (step : Asking σ α) (state : σ) :
    (outcome (asking step) state).value
      = ((outcome step state).value.1.mapError .mapper, (outcome step state).value.2) := by
  simp only [outcome, asking, ExceptT.run_mk, StateT.run_bind, Noted.value_bind]
  rcases (step.run.run state).value with ⟨_ | _, _⟩ <;> rfl

theorem notices_outcome_asking {α : Type} (step : Asking σ α) (state : σ) :
    (outcome (asking step) state).notices = (outcome step state).notices := by
  simp only [outcome, asking, ExceptT.run_mk, StateT.run_bind, Noted.notices_bind]
  rcases (step.run.run state).value with ⟨_ | _, _⟩ <;> simp

theorem ensures_asking {α : Type} {step : Asking σ α} {good : α → Prop} {bad : String → Prop}
    {said : Notice → Prop} (h : Ensures step good bad said) :
    Ensures (asking step) good (fun error => ∃ message, error = .mapper message ∧ bad message)
      said := by
  intro state
  obtain ⟨notices, value⟩ := h state
  rw [value_outcome_asking, notices_outcome_asking]
  refine ⟨notices, ?_⟩
  rcases hv : (outcome step state).value with ⟨message | a, state'⟩ <;> rw [hv] at value
  · exact ⟨message, rfl, value⟩
  · exact value

theorem ensures_resolve (generator : Generator σ) (node : Node) :
    Ensures (generator.resolve node) (fun node => ∃ type, node = .resolved type)
      generator.HookError (· ≠ .pendingChild) := by
  have hrefs : Ensures (liftM (Node.resolveReferences generator.options.container node) :
      Generating σ Node) Node.NoReference generator.HookError (· ≠ .pendingChild) := by
    refine .lift (Node.noReference_resolveReferences ..) ?_
    rintro notice hn rfl
    exact Node.pendingChild_notMem_resolveReferences _ _ hn
  have hcomposites (node : Node) (h : node.NoReference) :
      Ensures (liftM (Node.resolveComposites (Node.resolvePrimitives node)) : Generating σ Node)
        (fun node => ∃ type, node = .resolved type) generator.HookError (· ≠ .pendingChild) := by
    refine .lift ⟨_, Node.resolveComposites_resolvePrimitives generator.options.container h⟩ ?_
    rintro notice hn rfl
    exact Node.pendingChild_notMem_resolveComposites _ hn
  unfold resolve
  refine hrefs.bind fun node hnode => ?_
  cases hm : generator.mapper with
  | none => exact hcomposites node hnode
  | some mapper =>
    have hmap : Ensures (asking (Node.applyMapper mapper generator.options.container node))
        Node.NoReference generator.HookError (· ≠ .pendingChild) := by
      refine (ensures_asking (Node.ensures_applyMapper mapper _ hnode)).weaken (fun _ h => h) ?_
      rintro _ ⟨message, rfl, hf⟩
      exact ⟨message, rfl, mapper, hm, hf⟩
    exact hmap.bind hcomposites

theorem ensures_resolveAll (generator : Generator σ) (definitions : List (String × Node)) :
    Ensures (generator.resolveAll definitions)
      (fun nodes => ∀ entry ∈ nodes, ∃ type, entry.2 = .resolved type)
      generator.HookError (· ≠ .pendingChild) := by
  induction definitions with
  | nil => exact .pure (by simp)
  | cons entry rest ih =>
    refine (ensures_resolve generator entry.2).bind fun node hnode => ?_
    refine ih.bind fun nodes hnodes => .pure ?_
    simpa using ⟨hnode, fun name node => hnodes (name, node)⟩

theorem members_eq_ok {definitions : List (String × Node)}
    (h : ∀ entry ∈ definitions, ∃ type, entry.2 = .resolved type) :
    ∃ text, Declaration.members definitions = .ok text := by
  induction definitions with
  | nil => exact ⟨"", rfl⟩
  | cons entry rest ih =>
    obtain ⟨name, node⟩ := entry
    obtain ⟨type, rfl⟩ := h (name, node) (by simp)
    obtain ⟨text, ht⟩ := ih fun entry he => h entry (by simp [he])
    exact ⟨Declaration.member name type ++ text, by simp [Declaration.members, ht]⟩

theorem ensures_sourceOf (generator : Generator σ) (definitions : List (String × Node)) :
    Ensures (generator.sourceOf definitions) (fun _ => True) generator.HookError
      (· ≠ .pendingChild) := by
  have hstart : Ensures (liftM (Noted.give (.started definitions.length)) : Generating σ Unit)
      (fun _ => True) generator.HookError (· ≠ .pendingChild) := .lift trivial (by simp [Noted.give])
  refine hstart.bind fun _ _ => ?_
  refine (ensures_resolveAll generator definitions).bind fun nodes hnodes => ?_
  obtain ⟨text, ht⟩ := members_eq_ok hnodes
  simp only [Declaration.file, ht]
  exact .pure trivial

/-- Styling fails with errors of its own. -/
theorem ensures_formatting {step : ExceptT FormatError (StateM σ) String} {said : Notice → Prop} :
    Ensures (formatting step) (fun _ => True) (fun error => ∃ e, error = .format e) said := by
  intro state
  have hf : outcome (formatting step) state = match (step.run state : Except _ _ × σ) with
      | (.ok a, state) => ⟨(.ok a, state), []⟩
      | (.error e, state) => ⟨(.error (.format e), state), []⟩ := by
    simp only [outcome, formatting, ExceptT.run_mk, StateT.run]
    rcases (step.run state : Except _ _ × σ) with ⟨_ | _, _⟩ <;> rfl
  rw [hf]
  rcases (step.run state : Except _ _ × σ) with ⟨e | _, _⟩
  · exact ⟨by simp, e, rfl⟩
  · exact ⟨by simp, trivial⟩

theorem ensures_source (generator : Generator σ) (definitions : List (String × Schema)) :
    Ensures (generator.source { definitions := some definitions }) (fun _ => True)
      generator.HookError (· ≠ .pendingChild) :=
  ensures_sourceOf generator _

theorem ensures_generate (generator : Generator σ) (definitions : List (String × Schema)) :
    Ensures (generator.generate { definitions := some definitions }) (fun _ => True)
      (fun error => generator.HookError error ∨ ∃ e, error = .format e) (· ≠ .pendingChild) := by
  refine ((ensures_source generator definitions).weaken (fun _ h => h) fun _ => Or.inl).bind
    fun source _ => ?_
  exact ensures_formatting.weaken (fun _ h => h) fun _ => Or.inr

/-- Every definition of a document gets a type. The passes establish it one after the other: no
reference is left, the hook brings none back, no primitive is left, and then nothing is. The only
errors of a run before its source is styled are those of the hook, and no object that is ready has a
child without a type. -/
theorem every_definition_is_resolved (generator : Generator σ)
    (definitions : List (String × Schema)) (state : σ) :
    (∀ name, (outcome (generator.generate ⟨some definitions⟩) state).value.1
      ≠ .error (.unresolved name))
    ∧ .pendingChild ∉ (outcome (generator.generate ⟨some definitions⟩) state).notices
    ∧ (∀ error, (outcome (generator.source ⟨some definitions⟩) state).value.1 = .error error →
      generator.HookError error)
    ∧ (∀ node state error, (outcome (generator.resolve node) state).value.1 = .error error →
      generator.HookError error)
    ∧ (∀ node state result, (outcome (generator.resolve node) state).value.1 = .ok result →
      ∃ type, result = .resolved type)
    ∧ (∀ container node, (Node.resolveReferences container node).value.NoReference)
    ∧ (∀ (mapper : Mapper σ) container (node : Node) state result, node.NoReference →
      (outcome (Node.applyMapper mapper container node) state).value.1 = .ok result →
      result.NoReference)
    ∧ (∀ node : Node, node.NoReference → (Node.resolvePrimitives node).NoReference)
    ∧ (∀ node, (Node.resolvePrimitives node).NoPrimitive)
    ∧ ∀ node : Node, node.NoReference → node.NoPrimitive →
      ∃ type, (Node.resolveComposites node).value = .resolved type := by
  have hgenerate := ensures_generate generator definitions
  refine ⟨fun name he => ?_, fun hn => (hgenerate state).1 _ hn rfl,
    fun error => (ensures_source generator definitions).of_error,
    fun node state error => (ensures_resolve generator node).of_error,
    fun node state result => (ensures_resolve generator node).of_ok,
    Node.noReference_resolveReferences,
    fun mapper container node state result h => (Node.ensures_applyMapper mapper container h).of_ok,
    fun node => Node.noReference_resolvePrimitives, Node.noPrimitive_resolvePrimitives,
    fun node hr hp => ⟨_, Node.resolveComposites_of_noReference_of_noPrimitive "" hr hp⟩⟩
  rcases hgenerate.of_error he with ⟨_, h, _⟩ | ⟨_, h⟩ <;> cases h

end Generator
end SchemaTypes
