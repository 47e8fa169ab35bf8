import SchemaTypes.Proofs.Stages

/-! References and primitives in either order. Looking up a reference drops what stands below it,
and so does a primitive: which of the two a schema is does not depend on its children. -/
namespace SchemaTypes.Node

/-- What becomes of a schema without a reference does not depend on which pass comes first. -/
theorem resolveReferences_resolvePrimitive (container : String) {schema : SchemaNode}
    (h : schema.ref = none) : (resolveReferences container (resolvePrimitive schema)).value
      = resolvePrimitive (schema.map fun child => (resolveReferences container child).value) := by
  unfold resolvePrimitive
  rw [Keywords.shape_map]
  split
  next => rw [resolveReferences_resolved, Noted.value_pure]; rfl
  next => rw [resolveReferences_pending, h]

/-- Looking up references and resolving primitives lead to the same tree in either order. -/
theorem resolvePrimitives_resolveReferences (container : String) (node : Node) :
    resolvePrimitives (resolveReferences container node).value
      = (resolveReferences container (resolvePrimitives node)).value := by
  induction node using Node.induction with
  | resolved type => simp
  | pending schema ih =>
    rw [resolvePrimitives_pending, resolveReferences_pending]
    cases href : schema.ref with
    | some pointer =>
      have hshape : (schema.map resolvePrimitives).shape = .reference := by
        rw [Keywords.shape_eq_reference_iff, Keywords.map_ref, href]
        rfl
      rw [resolvePrimitive, hshape, if_neg (by decide), resolveReferences_pending,
        Keywords.map_ref, href]
      exact resolvePrimitives_resolved _
    | none =>
      have hchildren : (schema.map fun child => (resolveReferences container child).value).map
          resolvePrimitives = (schema.map resolvePrimitives).map
            fun child => (resolveReferences container child).value := by
        rw [Keywords.map_map, Keywords.map_map]
        exact Keywords.map_congr ih
      rw [resolveReferences_resolvePrimitive container
        (show (schema.map resolvePrimitives).ref = none from href)]
      show resolvePrimitives (.pending _) = _
      rw [resolvePrimitives_pending, hchildren]

/-- A tree without references is left alone, whichever interface is looked into. -/
theorem resolveReferences_of_noReference (container : String) {node : Node} (h : node.NoReference) :
    resolveReferences container node = pure node :=
  rebuildM_of_everywhere (fun schema href => by rw [lookup, href]) (fun _ _ => rfl) h

theorem resolvePrimitives_of_noPrimitive {node : Node} (h : node.NoPrimitive) :
    resolvePrimitives node = node :=
  congrArg Id.run (rebuildM_of_everywhere (fun _ _ => rfl)
    (fun schema hshape => by rw [resolvePrimitive, if_neg hshape]) h)

/-- References and primitives can be resolved in either order, with the same tree in the end. Either
pass changes nothing and says nothing where it has been before, also when it would look references
up elsewhere. At no depth of the tree that both leave there is a reference or a primitive. -/
theorem references_and_primitives_in_either_order (container other : String) (node : Node) :
    resolvePrimitives (resolveReferences container node).value
      = (resolveReferences container (resolvePrimitives node)).value
    ∧ resolveReferences other (resolveReferences container node).value
      = pure (resolveReferences container node).value
    ∧ resolvePrimitives (resolvePrimitives node) = resolvePrimitives node
    ∧ (resolvePrimitives (resolveReferences container node).value).Everywhere fun schema =>
      schema.shape ≠ .reference ∧ schema.shape ≠ .primitive := by
  have hreferences := noReference_resolveReferences container node
  refine ⟨resolvePrimitives_resolveReferences container node,
    resolveReferences_of_noReference other hreferences,
    resolvePrimitives_of_noPrimitive (noPrimitive_resolvePrimitives node), ?_⟩
  have hboth := (noReference_resolvePrimitives hreferences).and
    (noPrimitive_resolvePrimitives (resolveReferences container node).value)
  refine hboth.imp fun schema ⟨href, hprimitive⟩ => ⟨?_, hprimitive⟩
  rw [Ne, Keywords.shape_eq_reference_iff, href]
  exact Bool.false_ne_true

end SchemaTypes.Node
