import SchemaTypes.Proofs.Deferral
import SchemaTypes.Proofs.Rebuild

/-! What each pass leaves behind: no reference, then no primitive, then nothing unresolved. -/
namespace SchemaTypes

theorem Keywords.shape_eq_reference_iff {α : Type} {schema : Keywords α} :
    schema.shape = .reference ↔ schema.ref.isSome := by
  unfold shape
  grind

namespace Node

/-- The predicate holds at every position that is still a schema. -/
inductive Everywhere (p : SchemaNode → Prop) : Node → Prop where
  | resolved (type : TypeExpr) : Everywhere p (.resolved type)
  | pending {schema : SchemaNode} (here : p schema)
      (below : ∀ child ∈ schema.children, Everywhere p child) : Everywhere p (.pending schema)

theorem everywhere_pending_iff {p : SchemaNode → Prop} {schema : SchemaNode} :
    (pending schema).Everywhere p ↔ p schema ∧ ∀ child ∈ schema.children, child.Everywhere p := by
  constructor
  · rintro (_ | ⟨here, below⟩)
    exact ⟨here, below⟩
  · rintro ⟨here, below⟩
    exact .pending here below

theorem everywhere_map {α : Type} {p : SchemaNode → Prop} {schema : Keywords α} {f : α → Node}
    (here : p (schema.map f)) (below : ∀ child ∈ schema.children, (f child).Everywhere p) :
    (pending (schema.map f)).Everywhere p := by
  refine .pending here fun child hc => ?_
  rw [Keywords.children_map] at hc
  obtain ⟨old, ho, rfl⟩ := List.mem_map.1 hc
  exact below old ho

theorem Everywhere.imp {p q : SchemaNode → Prop} (h : ∀ schema, p schema → q schema) {node : Node}
    (hp : node.Everywhere p) : node.Everywhere q := by
  induction node using Node.induction with
  | resolved type => exact .resolved type
  | pending schema ih =>
    obtain ⟨here, below⟩ := everywhere_pending_iff.1 hp
    exact .pending (h schema here) fun child hc => ih child hc (below child hc)

theorem Everywhere.and {p q : SchemaNode → Prop} {node : Node} (hp : node.Everywhere p)
    (hq : node.Everywhere q) : node.Everywhere fun schema => p schema ∧ q schema := by
  induction node using Node.induction with
  | resolved type => exact .resolved type
  | pending schema ih =>
    obtain ⟨phere, pbelow⟩ := everywhere_pending_iff.1 hp
    obtain ⟨qhere, qbelow⟩ := everywhere_pending_iff.1 hq
    exact .pending ⟨phere, qhere⟩ fun child hc => ih child hc (pbelow child hc) (qbelow child hc)

/-- A walk that leaves every schema of a tree alone leaves the tree alone. -/
theorem rebuildM_of_everywhere {m : Type → Type} [Monad m] [LawfulMonad m] {p : SchemaNode → Prop}
    {enter : SchemaNode → m (Option TypeExpr)} {leave : SchemaNode → m Node}
    (henter : ∀ schema, p schema → enter schema = pure none)
    (hleave : ∀ schema, p schema → leave schema = pure (.pending schema)) {node : Node}
    (h : node.Everywhere p) : rebuildM enter leave node = pure node := by
  induction node using Node.induction with
  | resolved type => simp [rebuildM]
  | pending schema ih =>
    obtain ⟨here, below⟩ := everywhere_pending_iff.1 h
    have hchildren : schema.mapChildrenM (rebuildM enter leave) = pure schema := by
      rw [Keywords.mapChildrenM_congr fun child hc => ih child hc (below child hc),
        Keywords.mapChildrenM_pure fun child => child, Keywords.map_id]
    rw [rebuildM_pending, henter schema here, pure_bind]
    show schema.mapChildrenM (rebuildM enter leave) >>= leave = _
    rw [hchildren, pure_bind, hleave schema here]

/-- No schema with a reference is left. -/
def NoReference (node : Node) : Prop := node.Everywhere fun schema => schema.ref = none

/-- No schema of a primitive is left. -/
def NoPrimitive (node : Node) : Prop := node.Everywhere fun schema => schema.shape ≠ .primitive

theorem noReference_resolveReferences (container : String) (node : Node) :
    (resolveReferences container node).value.NoReference := by
  induction node using Node.induction with
  | resolved type =>
    rw [resolveReferences_resolved]
    exact .resolved type
  | pending schema ih =>
    rw [resolveReferences_pending]
    cases h : schema.ref with
    | some pointer => exact .resolved _
    | none => exact everywhere_map h ih

theorem noReference_resolvePrimitives {node : Node} (h : node.NoReference) :
    (resolvePrimitives node).NoReference := by
  induction node using Node.induction with
  | resolved type =>
    rw [resolvePrimitives_resolved]
    exact .resolved type
  | pending schema ih =>
    obtain ⟨here, below⟩ := everywhere_pending_iff.1 h
    rw [resolvePrimitives_pending, resolvePrimitive]
    split
    · exact .resolved _
    · exact everywhere_map here fun child hc => ih child hc (below child hc)

theorem noPrimitive_resolvePrimitives (node : Node) : (resolvePrimitives node).NoPrimitive := by
  induction node using Node.induction with
  | resolved type =>
    rw [resolvePrimitives_resolved]
    exact .resolved type
  | pending schema ih =>
    rw [resolvePrimitives_pending, resolvePrimitive]
    split
    next => exact .resolved _
    next h => exact everywhere_map h ih

/-- A composite gets a type, or stays exactly as it is. -/
theorem resolveComposite_cases (schema : SchemaNode) :
    (∃ type, (resolveComposite schema).value = .resolved type)
      ∨ resolveComposite schema = pure (.pending schema) := by
  unfold resolveComposite
  split
  · by_cases h : schema.isEmptyShape ∨ schema.isReady
    · obtain ⟨type, htype⟩ := resolveObject_of_ready h
      exact .inl ⟨type, congrArg Noted.value htype⟩
    · exact .inr (resolveObject_of_not_ready h)
  · rw [Noted.value_pure, resolveArray]
    split
    · exact .inl ⟨_, rfl⟩
    · exact .inl ⟨_, rfl⟩
    · exact .inr rfl
  · left
    refine ⟨.any, ?_⟩
    cases schema.type <;> rfl
  · exact .inr rfl
  · exact .inr rfl

/-! ### The child that is still a schema -/

/-- An object that is ready has the types of all its children. -/
theorem pendingChild_notMem_resolveObject (schema : SchemaNode) :
    .pendingChild ∉ (resolveObject schema).notices := by
  by_cases h : schema.isEmptyShape ∨ schema.isReady
  · obtain ⟨type, htype⟩ := resolveObject_of_ready h
    simp [htype]
  · simp [resolveObject_of_not_ready h]

theorem pendingChild_notMem_resolveComposites (node : Node) :
    .pendingChild ∉ (resolveComposites node).notices := by
  induction node using Node.induction with
  | resolved type => simp
  | pending schema ih =>
    rw [notices_resolveComposites_pending, List.mem_append, List.mem_flatMap]
    rintro (⟨child, hc, hn⟩ | hn)
    · exact ih child hc hn
    · revert hn
      unfold resolveComposite
      split
      · exact pendingChild_notMem_resolveObject _
      · simp
      · split <;> simp [Noted.give]
      · simp
      · simp

theorem pendingChild_notMem_resolveReferences (container : String) (node : Node) :
    .pendingChild ∉ (resolveReferences container node).notices := by
  induction node using Node.induction with
  | resolved type => simp
  | pending schema ih =>
    rw [notices_resolveReferences_pending]
    split
    next pointer =>
      unfold Pointer.name
      split <;> simp [Noted.give]
    next =>
      rw [List.mem_flatMap]
      rintro ⟨child, hc, hn⟩
      exact ih child hc hn

end Node
end SchemaTypes
