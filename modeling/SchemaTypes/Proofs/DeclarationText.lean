import Mathlib.Data.List.Forall2
import SchemaTypes.Declaration

/-! The text of the interface as a whole: a member for each definition in order, or the name of the
first definition without a type. -/
namespace SchemaTypes.Declaration

def ofTypes (types : List (String × TypeExpr)) : List (String × Node) :=
  types.map fun entry => (entry.1, .resolved entry.2)

/-- Every definition has a type, or one of them is the first that has none. -/
theorem exists_ofTypes_or_pending (definitions : List (String × Node)) :
    (∃ types, definitions = ofTypes types)
      ∨ ∃ before name schema after,
        definitions = ofTypes before ++ (name, .pending schema) :: after := by
  induction definitions with
  | nil => exact .inl ⟨[], rfl⟩
  | cons entry rest ih =>
    obtain ⟨name, schema | type⟩ := entry
    · exact .inr ⟨[], name, schema, rest, rfl⟩
    · rcases ih with ⟨types, rfl⟩ | ⟨before, first, schema, after, rfl⟩
      · exact .inl ⟨(name, type) :: types, rfl⟩
      · exact .inr ⟨(name, type) :: before, first, schema, after, rfl⟩

theorem ofTypes_cons (entry : String × TypeExpr) (rest : List (String × TypeExpr)) :
    ofTypes (entry :: rest) = (entry.1, .resolved entry.2) :: ofTypes rest := rfl

theorem exists_ofTypes_of_forall₂ {definitions : List (String × Schema)}
    {nodes : List (String × Node)} {P : String × Schema → TypeExpr → Prop}
    (h : List.Forall₂ (fun entry node => ∃ type, node = (entry.1, .resolved type) ∧ P entry type)
      definitions nodes) :
    ∃ types, nodes = ofTypes types
      ∧ List.Forall₂ (fun entry typed => typed.1 = entry.1 ∧ P entry typed.2) definitions types := by
  induction h with
  | nil => exact ⟨[], rfl, .nil⟩
  | @cons entry node _ _ hfirst _ ih =>
    obtain ⟨type, rfl, htype⟩ := hfirst
    obtain ⟨types, rfl, hrest⟩ := ih
    exact ⟨(entry.1, type) :: types, rfl, .cons ⟨rfl, htype⟩ hrest⟩

theorem members_ofTypes (types : List (String × TypeExpr)) :
    members (ofTypes types) = .ok (String.join (types.map fun entry => member entry.1 entry.2)) := by
  induction types with
  | nil => rfl
  | cons entry rest ih =>
    rw [ofTypes_cons, members, ih, List.map_cons, String.join_cons]

theorem members_pending (before : List (String × TypeExpr)) (name : String) (schema : SchemaNode)
    (after : List (String × Node)) :
    members (ofTypes before ++ (name, .pending schema) :: after) = .error name := by
  induction before with
  | nil => rfl
  | cons entry rest ih =>
    rw [ofTypes_cons, List.cons_append, members, ih]

/-- The text of the interface behind the banner. -/
def body (container : String) (types : List (String × TypeExpr)) : String :=
  header container ++ String.join (types.map fun entry => member entry.1 entry.2) ++ "\x7d\n"

theorem file_ofTypes (types : List (String × TypeExpr)) (container banner : String) :
    file (ofTypes types) container banner = .ok (banner ++ body container types) := by
  rw [file, members_ofTypes, body]
  simp only [String.append_assoc]

theorem file_pending (before : List (String × TypeExpr)) (name : String) (schema : SchemaNode)
    (after : List (String × Node)) (container banner : String) :
    file (ofTypes before ++ (name, .pending schema) :: after) container banner = .error name := by
  rw [file, members_pending]

end SchemaTypes.Declaration
