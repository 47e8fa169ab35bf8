import SchemaTypes.Node

/-! Rebuilding a schema from its children, and whole trees from the bottom up. -/
namespace SchemaTypes

variable {m : Type → Type} [Monad m] {α β : Type}

namespace Keywords

/-- Replaces every child, in the order properties, members, items, values of further properties. -/
def mapChildrenM (f : α → m β) (schema : Keywords α) : m (Keywords β) := do
  let properties ← match schema.properties with
    | none => pure none
    | some entries => some <$> entries.mapM fun entry => (entry.1, ·) <$> f entry.2
  let allOf ← match schema.allOf with
    | none => pure none
    | some members => some <$> members.mapM f
  let items ← match schema.items with
    | none => pure none
    | some child => some <$> f child
  let additional ← match schema.additional with
    | none => pure none
    | some (.allowed any) => pure (some (.allowed any))
    | some (.values child) => (some ∘ Additional.values) <$> f child
  return { schema with properties, allOf, items, additional }

end Keywords

namespace Node

mutual
/-- Walks down the tree and back up. `enter` may finish a schema before its children are looked at;
otherwise `leave` gets it with its children rebuilt. Resolved positions stay as they are. -/
def rebuildM (enter : SchemaNode → m (Option TypeExpr)) (leave : SchemaNode → m Node) :
    Node → m Node
  | .resolved type => pure (.resolved type)
  | .pending ⟨ref, type, format, enum, description, properties, required, additional, allOf, items,
      docs⟩ => do
    match ← enter ⟨ref, type, format, enum, description, properties, required, additional, allOf,
        items, docs⟩ with
    | some type => return .resolved type
    | none =>
      let properties ← match properties with
        | none => pure none
        | some entries => some <$> rebuildPropertiesM enter leave entries
      let allOf ← match allOf with
        | none => pure none
        | some members => some <$> rebuildAllM enter leave members
      let items ← match items with
        | none => pure none
        | some child => some <$> rebuildM enter leave child
      let additional ← match additional with
        | none => pure none
        | some (.allowed any) => pure (some (.allowed any))
        | some (.values child) => (some ∘ Additional.values) <$> rebuildM enter leave child
      leave ⟨ref, type, format, enum, description, properties, required, additional, allOf, items,
        docs⟩

def rebuildPropertiesM (enter : SchemaNode → m (Option TypeExpr)) (leave : SchemaNode → m Node) :
    List (String × Node) → m (List (String × Node))
  | [] => pure []
  | (name, child) :: rest => do
    let child ← rebuildM enter leave child
    let rest ← rebuildPropertiesM enter leave rest
    return (name, child) :: rest

def rebuildAllM (enter : SchemaNode → m (Option TypeExpr)) (leave : SchemaNode → m Node) :
    List Node → m (List Node)
  | [] => pure []
  | child :: rest => do
    let child ← rebuildM enter leave child
    let rest ← rebuildAllM enter leave rest
    return child :: rest
end

variable [LawfulMonad m]

theorem rebuildAllM_eq (enter : SchemaNode → m (Option TypeExpr)) (leave : SchemaNode → m Node)
    (children : List Node) :
    rebuildAllM enter leave children = children.mapM (rebuildM enter leave) := by
  induction children with
  | nil => simp [rebuildAllM]
  | cons child rest ih => simp [rebuildAllM, ih]

theorem rebuildPropertiesM_eq (enter : SchemaNode → m (Option TypeExpr))
    (leave : SchemaNode → m Node) (entries : List (String × Node)) :
    rebuildPropertiesM enter leave entries
      = entries.mapM fun entry => (entry.1, ·) <$> rebuildM enter leave entry.2 := by
  induction entries with
  | nil => simp [rebuildPropertiesM]
  | cons entry rest ih => simp [rebuildPropertiesM, ih]

/-- One level of the walk. -/
theorem rebuildM_pending (enter : SchemaNode → m (Option TypeExpr)) (leave : SchemaNode → m Node)
    (schema : SchemaNode) :
    rebuildM enter leave (.pending schema) = (do
      match ← enter schema with
      | some type => return .resolved type
      | none => leave (← schema.mapChildrenM (rebuildM enter leave))) := by
  obtain ⟨ref, type, format, enum, description, properties, required, additional, allOf, items,
    docs⟩ := schema
  simp only [rebuildM, Keywords.mapChildrenM]
  congr 1
  funext found
  cases found with
  | some type => rfl
  | none =>
    cases properties <;> cases allOf <;> cases items <;> rcases additional with _ | _ | _ <;>
      simp [rebuildAllM_eq, rebuildPropertiesM_eq]

end Node
end SchemaTypes
