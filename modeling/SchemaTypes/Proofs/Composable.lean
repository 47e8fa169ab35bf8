import Mathlib.Logic.Function.Iterate
import SchemaTypes.Proofs.Stages

/-! Which trees get a type from their objects and arrays. One traversal finds it for all that can
have one, and a second traversal finds nothing more. -/
namespace SchemaTypes.Node

/-- What an object needs are the types of its properties and members, unless it has the empty shape,
and what an array needs is the type of its items. References and primitives get no type. -/
inductive Composable : Node → Prop where
  | resolved (type : TypeExpr) : Composable (.resolved type)
  | unknown {schema : SchemaNode} (shape : schema.shape = .unknown) : Composable (.pending schema)
  | empty {schema : SchemaNode} (shape : schema.shape = .object) (h : schema.isEmptyShape) :
    Composable (.pending schema)
  | object {schema : SchemaNode} (shape : schema.shape = .object)
      (properties : ∀ entry ∈ schema.properties.getD [], Composable entry.2)
      (members : ∀ member ∈ schema.allOf.getD [], Composable member) : Composable (.pending schema)
  | array {schema : SchemaNode} (shape : schema.shape = .array)
      (items : ∀ child, schema.items = some child → Composable child) :
    Composable (.pending schema)

theorem composable_pending_iff {schema : SchemaNode} :
    (pending schema).Composable ↔ match schema.shape with
      | .object => schema.isEmptyShape ∨ (∀ entry ∈ schema.properties.getD [], entry.2.Composable)
        ∧ ∀ member ∈ schema.allOf.getD [], member.Composable
      | .array => ∀ child, schema.items = some child → child.Composable
      | .unknown => True
      | .reference | .primitive => False := by
  constructor
  · intro h
    cases h with
    | unknown shape => rw [shape]; trivial
    | empty shape h => rw [shape]; exact .inl h
    | object shape properties members => rw [shape]; exact .inr ⟨properties, members⟩
    | array shape items => rw [shape]; exact items
  · intro h
    split at h
    next shape =>
      rcases h with h | ⟨properties, members⟩
      · exact .empty shape h
      · exact .object shape properties members
    next shape => exact .array shape h
    next shape => exact .unknown shape
    next => exact h.elim
    next => exact h.elim

/-- What the step at one schema, with its children done, comes to. -/
theorem isResolved_resolveComposite (schema : SchemaNode) :
    (resolveComposite schema).value.isResolved ↔ match schema.shape with
      | .object => schema.isEmptyShape ∨ (∀ entry ∈ schema.properties.getD [], entry.2.isResolved)
        ∧ ∀ member ∈ schema.allOf.getD [], member.isResolved
      | .array => ∀ child, schema.items = some child → child.isResolved
      | .unknown => True
      | .reference | .primitive => False := by
  unfold resolveComposite
  cases schema.shape with
  | reference | primitive => simp [isResolved]
  | unknown => cases schema.type <;> simp [isResolved]
  | array => rcases h : schema.items with _ | _ | _ <;> simp [resolveArray, h, isResolved]
  | object =>
    dsimp only
    rw [← isReady_iff]
    by_cases h : schema.isEmptyShape ∨ schema.isReady
    · obtain ⟨type, htype⟩ := resolveObject_of_ready h
      simp [htype, h, isResolved]
    · simp [resolveObject_of_not_ready h, h, isResolved]

/-- A traversal gives a type to the composable trees, and to no others. -/
theorem isResolved_resolveComposites (node : Node) :
    (resolveComposites node).value.isResolved ↔ node.Composable := by
  induction node using Node.induction with
  | resolved type => simpa [isResolved] using Composable.resolved type
  | pending schema ih =>
    rw [resolveComposites_pending, isResolved_resolveComposite, composable_pending_iff,
      Keywords.shape_map]
    cases schema.shape with
    | reference | primitive | unknown => exact Iff.rfl
    | array =>
      dsimp only
      rw [Keywords.map_items]
      cases hitems : schema.items with
      | none => simp
      | some child => simpa using ih child (Keywords.mem_children_of_items hitems)
    | object =>
      dsimp only
      rw [Keywords.isEmptyShape_map, Keywords.getD_properties_map, Keywords.getD_allOf_map,
        List.forall_mem_map, List.forall_mem_map]
      apply or_congr Iff.rfl
      apply and_congr
      · exact forall₂_congr fun entry he => ih entry.2 (Keywords.mem_children_of_mem_properties he)
      · exact forall₂_congr fun member hm => ih member (Keywords.mem_children_of_mem_allOf hm)

/-- Every schema that a traversal leaves is one that the step at it leaves as it is. -/
theorem everywhere_resolveComposites (node : Node) : (resolveComposites node).value.Everywhere
    fun schema => resolveComposite schema = pure (.pending schema) := by
  induction node using Node.induction with
  | resolved type =>
    rw [resolveComposites_resolved]
    exact .resolved type
  | pending schema ih =>
    rw [resolveComposites_pending]
    rcases resolveComposite_cases (schema.map fun child => (resolveComposites child).value) with
      ⟨type, htype⟩ | hwaits
    · rw [htype]
      exact .resolved type
    · rw [hwaits]
      exact everywhere_map hwaits ih

/-- One traversal of objects and arrays is enough. It gives a type to exactly the composable trees,
whatever passes went before, and on the tree that it leaves it changes nothing and says nothing, so
that no number of rounds finds more than the first. -/
theorem one_composite_traversal_is_enough (node : Node) :
    ((resolveComposites node).value.isResolved ↔ node.Composable)
    ∧ resolveComposites (resolveComposites node).value = pure (resolveComposites node).value
    ∧ ∀ rounds, (fun node => (resolveComposites node).value)^[rounds + 1] node
      = (resolveComposites node).value := by
  have hagain : resolveComposites (resolveComposites node).value
      = pure (resolveComposites node).value :=
    rebuildM_of_everywhere (fun _ _ => rfl) (fun _ h => h) (everywhere_resolveComposites node)
  refine ⟨isResolved_resolveComposites node, hagain, ?_⟩
  intro rounds
  rw [Function.iterate_succ_apply]
  exact Function.iterate_fixed (congrArg Noted.value hagain) rounds

end SchemaTypes.Node
