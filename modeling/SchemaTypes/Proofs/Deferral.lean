import SchemaTypes.Node.Types

/-! Objects that have to wait for a child. Taking one apart loses nothing: unless every child that
is needed has a type, the schema is put together again as it was. -/
namespace SchemaTypes.Node

/-- The types are those of all nodes, in order. -/
theorem takeTypes_eq_ok_iff {nodes : List Node} {types : List TypeExpr} :
    takeTypes nodes = .ok types ↔ nodes = types.map .resolved := by
  induction nodes generalizing types with
  | nil => cases types <;> simp [takeTypes]
  | cons node rest ih =>
    cases node with
    | pending schema => cases types <;> simp [takeTypes]
    | resolved type =>
      rw [takeTypes]
      cases hrest : takeTypes rest <;> cases types <;> simp [← ih, hrest]

/-- What was taken apart is put together again as it was. -/
theorem restore_takeTypes (nodes : List Node) : restore (takeTypes nodes) = nodes := by
  induction nodes with
  | nil => rfl
  | cons node rest ih =>
    cases node with
    | pending schema => rfl
    | resolved type =>
      rw [takeTypes]
      cases hrest : takeTypes rest with
      | ok types | error others =>
        rw [hrest] at ih
        exact congrArg (Node.resolved type :: ·) ih

theorem exists_takeTypes_eq_ok_iff {nodes : List Node} :
    (∃ types, takeTypes nodes = .ok types) ↔ ∀ node ∈ nodes, node.isResolved := by
  simp only [takeTypes_eq_ok_iff]
  constructor
  · rintro ⟨types, rfl⟩
    exact List.forall_mem_map.2 fun type _ => rfl
  · intro h
    induction nodes with
    | nil => exact ⟨[], rfl⟩
    | cons node rest ih =>
      obtain ⟨hnode, hrest⟩ := List.forall_mem_cons.1 h
      obtain ⟨types, rfl⟩ := ih hrest
      cases node with
      | pending schema => cases hnode
      | resolved type => exact ⟨type :: types, rfl⟩

/-- With a schema among them the nodes themselves come back. -/
theorem takeTypes_eq_error_iff {nodes others : List Node} :
    takeTypes nodes = .error others ↔ others = nodes ∧ ¬∀ node ∈ nodes, node.isResolved := by
  have hrestore := restore_takeTypes nodes
  rw [← exists_takeTypes_eq_ok_iff]
  cases htake : takeTypes nodes with
  | ok types => simp
  | error rest =>
    rw [htake] at hrestore
    simp [← hrestore, restore, eq_comm]

theorem isReady_iff (schema : SchemaNode) :
    schema.isReady ↔ (∀ entry ∈ schema.properties.getD [], entry.2.isResolved)
      ∧ ∀ member ∈ schema.allOf.getD [], member.isResolved := by
  rw [SchemaNode.isReady, Bool.and_eq_true, List.all_eq_true, List.all_eq_true, and_comm]

/-- An object that is ready gets a type, also where nobody asks first whether it is. -/
theorem assemble_of_isReady {schema : SchemaNode} (h : schema.isReady) :
    ∃ type, assemble schema = pure (.resolved type) := by
  obtain ⟨hproperties, hmembers⟩ := (isReady_iff schema).1 h
  obtain ⟨types, htypes⟩ := exists_takeTypes_eq_ok_iff.2 (List.forall_mem_map.2 hproperties)
  obtain ⟨memberTypes, hmemberTypes⟩ := exists_takeTypes_eq_ok_iff.2 hmembers
  exact ⟨_, by rw [assemble, htypes, hmemberTypes]⟩

/-- The properties and the members of a schema that was taken apart. -/
theorem restored_eq (schema : SchemaNode) :
    { schema with
      properties := schema.properties.map fun entries =>
        (Assoc.keys entries).zip (restore (takeTypes ((schema.properties.getD []).map Prod.snd)))
      allOf := schema.allOf.map fun _ => restore (takeTypes (schema.allOf.getD [])) } = schema := by
  have hproperties : (schema.properties.map fun entries =>
      (Assoc.keys entries).zip ((schema.properties.getD []).map Prod.snd)) = schema.properties := by
    cases schema.properties with
    | none => rfl
    | some entries => exact congrArg some (List.zip_of_prod rfl rfl).symm
  have hmembers : (schema.allOf.map fun _ => schema.allOf.getD []) = schema.allOf := by
    cases schema.allOf <;> rfl
  rw [restore_takeTypes, restore_takeTypes, hproperties, hmembers]

/-- An object that is not ready is put together again, whichever of its children has no type. -/
theorem assemble_of_not_isReady {schema : SchemaNode} (h : ¬schema.isReady) :
    assemble schema = ⟨.pending schema, [.pendingChild]⟩ := by
  have hrestored := congrArg (fun schema => (⟨.pending schema, [.pendingChild]⟩ : Noted Node))
    (restored_eq schema)
  simp only [assemble]
  cases htypes : takeTypes ((schema.properties.getD []).map Prod.snd) <;>
    cases hmemberTypes : takeTypes (schema.allOf.getD []) <;> rw [htypes, hmemberTypes] at hrestored
  case ok.ok types memberTypes =>
    have hproperties := exists_takeTypes_eq_ok_iff.1 ⟨types, htypes⟩
    have hmembers := exists_takeTypes_eq_ok_iff.1 ⟨memberTypes, hmemberTypes⟩
    exact absurd ((isReady_iff schema).2 ⟨List.forall_mem_map.1 hproperties, hmembers⟩) h
  all_goals exact hrestored

theorem resolveObject_of_ready {schema : SchemaNode} (h : schema.isEmptyShape ∨ schema.isReady) :
    ∃ type, resolveObject schema = pure (.resolved type) := by
  unfold resolveObject
  split
  next => exact ⟨_, rfl⟩
  next hempty =>
    have hready := h.resolve_left hempty
    rw [if_pos hready]
    exact assemble_of_isReady hready

theorem resolveObject_of_not_ready {schema : SchemaNode}
    (h : ¬(schema.isEmptyShape ∨ schema.isReady)) :
    resolveObject schema = pure (.pending schema) := by
  rw [not_or] at h
  rw [resolveObject, if_neg h.1, if_neg h.2]

/-- Deferring an object loses nothing. An object of the empty shape, or with a type for each of its
properties and members, gets a type, and any other is left exactly as it is. The check of the
children can be skipped: types are taken if all nodes have one, and otherwise the same nodes come
back, so that an object taken apart too early is put together again as it was. -/
theorem deferred_object_is_unchanged (schema : SchemaNode) (nodes : List Node) :
    (if schema.isEmptyShape ∨ schema.isReady then
        ∃ type, resolveObject schema = pure (.resolved type)
      else resolveObject schema = pure (.pending schema))
    ∧ (∀ types, takeTypes nodes = .ok types ↔ nodes = types.map .resolved)
    ∧ (∀ others, takeTypes nodes = .error others ↔
      others = nodes ∧ ¬∀ node ∈ nodes, node.isResolved)
    ∧ restore (takeTypes nodes) = nodes
    ∧ if schema.isReady then ∃ type, assemble schema = pure (.resolved type)
      else assemble schema = ⟨.pending schema, [.pendingChild]⟩ := by
  refine ⟨?_, ?_, ?_, restore_takeTypes nodes, ?_⟩
  · split
    next hready => exact resolveObject_of_ready hready
    next hwaits => exact resolveObject_of_not_ready hwaits
  · intro types
    exact takeTypes_eq_ok_iff
  · intro others
    exact takeTypes_eq_error_iff
  · split
    next hready => exact assemble_of_isReady hready
    next hwaits => exact assemble_of_not_isReady hwaits

end SchemaTypes.Node
