import SchemaTypes.Proofs.EditedDocument
import SchemaTypes.Proofs.ReadDocuments

/-! The hook that answers what it is asked. It writes back the required names and the descriptions
of every property, so nothing changes where an object and its properties agree on these. -/
namespace SchemaTypes

open Steps (outcome)

variable {σ : Type}

namespace Steps

variable {ε α β : Type}

/-- What follows a step without failure and state only counts at its value. -/
theorem lift_bind_congr {x : Noted α} {next other : α → Steps ε σ β}
    (h : next x.value = other x.value) :
    ((liftM x : Steps ε σ α) >>= next) = (liftM x : Steps ε σ α) >>= other := by
  funext state
  have hbind (f : α → Steps ε σ β) : ((liftM x : Steps ε σ α) >>= f) state
      = ⟨(f x.value state).value, ((x.notices ++ []) ++ []) ++ (f x.value state).notices⟩ := rfl
  rw [hbind, hbind, h]

end Steps

namespace Node

/-- Each object keeps the descriptions that stand in its properties, as far as these are schemas. -/
def DocsAgree (node : Node) : Prop :=
  node.Everywhere fun schema => ∀ entry ∈ schema.properties.getD [],
    ∀ property, entry.2 = .pending property →
      Assoc.find? entry.1 schema.docs = property.description

/-- Recording an answer that says what the owner has already changes nothing. -/
theorem record_context {owner : Owner} {name : String} {property : SchemaNode}
    (h : Assoc.find? name owner.docs = property.description) :
    owner.record name (.ofContext (context owner.required name property)) = owner := by
  obtain ⟨required, docs⟩ := owner
  have hrequired : (if !required.contains name then (required.remove name).1
      else (required.insert name).1) = required := by
    cases hc : required.contains name with
    | true => exact RequiredSet.insert_of_contains hc
    | false => exact RequiredSet.remove_of_contains_eq_false hc
  have hdocs : (Owner.record ⟨required, docs⟩ name
      (.ofContext (context required name property))).docs = docs := by
    dsimp only [Owner.record, PropertyMapping.ofContext, context]
    cases hd : property.description with
    | none => exact Assoc.erase_of_find?_eq_none (h.trans hd)
    | some doc => exact Assoc.put_of_find?_eq_some (h.trans hd)
  exact congrArg₂ Owner.mk hrequired hdocs

theorem answered_context (container name : String) (required : RequiredSet)
    (property : SchemaNode) :
    answered container property (.ofContext (context required name property))
      = pure (.pending property) := by
  simp [answered, PropertyMapping.ofContext, context]

theorem ask_identity (property : SchemaNode) (context : PropertyContext) :
    Mapper.identity.ask property context = (pure (.ofContext context) : Asking σ PropertyMapping) :=
  rfl

theorem mapProperties_identity (container : String) {owner : Owner}
    {entries : List (String × Node)}
    (h : ∀ entry ∈ entries, ∀ property, entry.2 = .pending property →
      Assoc.find? entry.1 owner.docs = property.description) :
    mapProperties .identity container owner entries
      = (pure (owner, entries) : Asking σ (Owner × List (String × Node))) := by
  induction entries with
  | nil => rfl
  | cons entry rest ih =>
    have hrest := ih fun entry he => h entry (by simp [he])
    obtain ⟨name, property | type⟩ := entry
    · have howner := record_context (h (name, .pending property) (by simp) property rfl)
      rw [mapProperties, ask_identity, pure_bind, answered_context, howner, hrest]
      rfl
    · rw [mapProperties, hrest]
      rfl

theorem applyMapper_identity (container : String) {node : Node} (h : node.DocsAgree) :
    applyMapper .identity container node = (pure node : Asking σ Node) := by
  induction node using Node.induction with
  | resolved type => rfl
  | pending schema ih =>
    obtain ⟨here, below⟩ := everywhere_pending_iff.1 h
    have hchildren : schema.mapChildrenM (applyMapper .identity container)
        = (pure schema : Asking σ SchemaNode) := by
      rw [Keywords.mapChildrenM_congr fun child hc => ih child hc (below child hc),
        Keywords.mapChildrenM_pure fun child => child, Keywords.map_id]
    have hobject : mapObject .identity container schema
        = (pure (.pending schema) : Asking σ Node) := by
      unfold mapObject
      split
      next entries _ hentries =>
        rw [hentries] at here
        rw [mapProperties_identity container here, pure_bind]
        show pure (Node.pending { schema with properties := some entries }) = _
        rw [← hentries]
      next => rfl
    calc applyMapper .identity container (.pending schema)
        = schema.mapChildrenM (applyMapper .identity container)
            >>= mapObject .identity container := by
          rw [applyMapper, rebuildM_pending, pure_bind]
          rfl
      _ = (pure (.pending schema) : Asking σ Node) := by
          rw [hchildren, pure_bind, hobject]

/-- The tree of a schema keeps the descriptions as they are written. -/
theorem docsAgree_loaded (container : String) {schema : Schema} (h : schema.Distinct) :
    (loaded container schema).DocsAgree := by
  induction schema using Schema.induction with
  | step schema ih =>
    cases h with
    | mk names below =>
      cases hr : schema.ref with
      | some pointer =>
        rw [loaded_of_ref container hr]
        exact .resolved _
      | none =>
        rw [loaded_of_ref_eq_none container hr]
        refine everywhere_map ?_ fun child hc => ih child hc (below child hc)
        intro entry he property hp
        rw [Keywords.getD_properties_map] at he
        obtain ⟨written, hw, rfl⟩ := List.mem_map.1 he
        have hdescription : written.2.description = property.description := by
          cases hc : written.2.ref with
          | some pointer => simp [loaded_of_ref container hc] at hp
          | none =>
            rw [loaded_of_ref_eq_none container hc] at hp
            cases hp
            rfl
        rw [← hdescription]
        exact find?_describedBy Schema.description names hw

end Node

namespace Generator

theorem resolve_identity (generator : Generator σ) {schema : Schema} (h : schema.Distinct) :
    { generator with mapper := some .identity }.resolve (.ofSchema schema)
      = { generator with mapper := none }.resolve (.ofSchema schema) := by
  refine Steps.lift_bind_congr ?_
  have hpass := Node.applyMapper_identity (σ := σ) generator.options.container
    (Node.docsAgree_loaded generator.options.container h)
  show (asking (Node.applyMapper .identity generator.options.container
    (Node.loaded generator.options.container schema)) >>= fun node => _) = _
  rw [hpass]
  rfl

theorem resolveAll_identity (generator : Generator σ) {definitions : List (String × Schema)}
    (h : ∀ entry ∈ definitions, entry.2.Distinct) :
    { generator with mapper := some .identity }.resolveAll
        (definitions.map fun entry : String × Schema => (entry.1, .ofSchema entry.2))
      = { generator with mapper := none }.resolveAll
        (definitions.map fun entry : String × Schema => (entry.1, .ofSchema entry.2)) := by
  induction definitions with
  | nil => rfl
  | cons entry rest ih =>
    simp only [List.map_cons, resolveAll, resolve_identity generator (h entry (by simp)),
      ih fun entry he => h entry (by simp [he])]

theorem generate_identity (generator : Generator σ) {document : Document}
    (h : ∀ definitions, document.definitions = some definitions →
      ∀ entry ∈ definitions, entry.2.Distinct) :
    { generator with mapper := some .identity }.generate document
      = { generator with mapper := none }.generate document := by
  obtain ⟨_ | definitions⟩ := document
  · rfl
  · have hnodes := resolveAll_identity generator (h definitions rfl)
    simp only [generate, source, sourceOf, hnodes]

/-- On a text the hook changes nothing either, as no document that is read names a property twice. -/
theorem generateText_identity (generator : Generator σ) (format : InputFormat) (text : String) :
    { generator with mapper := some .identity }.generateText format text
      = { generator with mapper := none }.generateText format text := by
  rcases generateText_eq (σ := σ) format text with ⟨document, hdistinct, -, hrun⟩ | ⟨cause, hrun⟩
  · rw [hrun, hrun]
    exact generate_identity generator hdistinct.of_eq_some
  · rw [hrun, hrun]

theorem generateJson_identity (generator : Generator σ) (text : String) :
    { generator with mapper := some .identity }.generateJson text
      = { generator with mapper := none }.generateJson text :=
  generateText_identity generator .json text

theorem generateYaml_identity (generator : Generator σ) (text : String) :
    { generator with mapper := some .identity }.generateYaml text
      = { generator with mapper := none }.generateYaml text :=
  generateText_identity generator .yaml text

/-- The hook that answers what it is asked changes nothing: not a tree whose objects keep the
descriptions of their properties, which the tree of every schema is, and so not a run either, with
its result, the state it leaves and its notices. -/
theorem identity_hook_changes_nothing :
    (∀ (container : String) (node : Node) (state : σ), node.DocsAgree →
      outcome (Node.applyMapper .identity container node) state = ⟨(.ok node, state), []⟩)
    ∧ (∀ (container : String) (schema : Schema), schema.Distinct →
      (Node.resolveReferences container (.ofSchema schema)).value.DocsAgree)
    ∧ ∀ (generator : Generator σ) (document : Document) (state : σ),
      (∀ definitions, document.definitions = some definitions →
        ∀ entry ∈ definitions, entry.2.Distinct) →
      outcome ({ generator with mapper := some .identity }.generate document) state
        = outcome ({ generator with mapper := none }.generate document) state := by
  refine ⟨fun container node state h => ?_, fun container schema => Node.docsAgree_loaded container,
    fun generator document state h => ?_⟩
  · rw [Node.applyMapper_identity container h]
    rfl
  · rw [generate_identity generator h]

def petNode : Node :=
  .pending { type := some "object", required := ⟨["owner", "id"], by decide⟩
             properties := some [("owner", .resolved (.reference "definitions" "Person")),
               ("id", .pending { type := some "integer", description := some "Number" }),
               ("tag", .pending { enum := some [.string "a"] })]
             docs := [("id", "Number"), ("owner", "Keeper")] }

theorem petNode_docsAgree : petNode.DocsAgree := by
  refine .pending ?_ fun child hc => ?_
  · intro entry he property hp
    have he : entry ∈ [_, _, _] := he
    simp only [List.mem_cons, List.not_mem_nil, or_false] at he
    rcases he with rfl | rfl | rfl <;> cases hp <;> decide
  · have hc : child ∈ [_, _, _] := hc
    simp only [List.mem_cons, List.not_mem_nil, or_false] at hc
    rcases hc with rfl | rfl | rfl
    · exact .resolved _
    all_goals exact .pending (by simp) (by rintro _ ⟨⟩)

/-- A tree with a reference that is looked up already, and a schema with descriptions. -/
theorem identity_hook_changes_nothing_pet :
    petNode.DocsAgree
    ∧ outcome (Node.applyMapper .identity "definitions" petNode) 0 = ⟨(.ok petNode, 0), []⟩
    ∧ outcome (generate { mapper := some .identity } ⟨some petDefinitions⟩) 0
      = outcome (generate {} ⟨some petDefinitions⟩) 0 := by
  obtain ⟨hnode, -, hrun⟩ := identity_hook_changes_nothing (σ := Nat)
  refine ⟨petNode_docsAgree, hnode _ _ _ petNode_docsAgree, hrun {} _ _ fun definitions hd => ?_⟩
  cases hd
  exact petDefinitions_distinct

end Generator
end SchemaTypes
