import SchemaTypes.Proofs.ObjectLiterals
import SchemaTypes.Proofs.Position

/-! The types that a run can find. Each is the type of a tree in which text from outside stands for
properties only. -/
namespace SchemaTypes

namespace TypeExpr

def isVerbatim : TypeExpr → Bool
  | .verbatim _ => true
  | _ => false

/-- The grammar of the types of a run with this interface. Text from outside is the type of a
property, and only if there is a hook. -/
inductive IsGenerated (container : String) (hooked : Bool) : TypeExpr → Prop
  | primitive (kind : Primitive) : IsGenerated container hooked (.primitive kind)
  | literal (text : String) : IsGenerated container hooked (.literal text)
  | array {element : TypeExpr} : IsGenerated container hooked element →
      IsGenerated container hooked (.array element)
  | union {members : List TypeExpr} (several : 2 ≤ members.length)
      (literals : ∀ member ∈ members, ∃ text, member = .literal text) :
      IsGenerated container hooked (.union members)
  | intersection {members : List TypeExpr} (several : 2 ≤ members.length)
      (below : ∀ member ∈ members, IsGenerated container hooked member) :
      IsGenerated container hooked (.intersection members)
  | object {properties : List Property} {index : Option TypeExpr}
      (nonempty : properties ≠ [] ∨ index.isSome)
      (names : (properties.map Property.name).Nodup)
      (texts : ∀ p ∈ properties, p.type.isVerbatim → hooked)
      (types : ∀ p ∈ properties, p.type.isVerbatim = false → IsGenerated container hooked p.type)
      (values : ∀ value ∈ index, ∃ kind, value = .primitive kind) :
      IsGenerated container hooked (.object ⟨properties, index⟩)
  | reference (name : String) : IsGenerated container hooked (.reference container name)

variable {container : String} {hooked : Bool}

theorem IsGenerated.isVerbatim_eq_false {type : TypeExpr} (h : type.IsGenerated container hooked) :
    type.isVerbatim = false := by
  cases h <;> rfl

theorem isGenerated_openDictionary : openDictionary.IsGenerated container hooked := by
  refine .object (.inr rfl) List.nodup_nil (by simp) (by simp) fun value hv => ?_
  cases hv
  exact ⟨.any, rfl⟩

/-- Requiring names in a literal changes neither its names nor the types in it. -/
theorem IsGenerated.requireIn {type : TypeExpr} (h : type.IsGenerated container hooked)
    (required : RequiredSet) : (Node.requireIn required type).IsGenerated container hooked := by
  cases h with
  | object nonempty names texts types values =>
    rw [Node.requireIn_object]
    refine .object (nonempty.imp_left (mt List.map_eq_nil_iff.1)) ?_ ?_ ?_ values
    · rwa [List.map_map]
    · exact List.forall_mem_map.2 texts
    · exact List.forall_mem_map.2 types
  | primitive kind => exact .primitive kind
  | literal text => exact .literal text
  | array element => exact .array element
  | union several literals => exact .union several literals
  | intersection several below => exact .intersection several below
  | reference name => exact .reference name

end TypeExpr

namespace Keywords

variable {α β : Type}

/-- Properties are named once, and children that are text from outside are properties in a run with
a hook. -/
structure Places (isText : α → Bool) (hooked : Bool) (schema : Keywords α) : Prop where
  names : (Assoc.keys (schema.properties.getD [])).Nodup
  texts : ∀ edge child, (edge, child) ∈ schema.edges → isText child →
    hooked ∧ ∃ name, edge = .property name

theorem Places.map {isText : α → Bool} {hooked : Bool} {schema : Keywords α}
    (h : schema.Places isText hooked) {f : α → β} {isText' : β → Bool}
    (hf : ∀ child ∈ schema.children, isText' (f child) → isText child) :
    (schema.map f).Places isText' hooked := by
  refine ⟨by rw [keys_properties_map]; exact h.names, fun _ _ hedge htext => ?_⟩
  rw [edges_map] at hedge
  obtain ⟨⟨edge, old⟩, hold, heq⟩ := List.mem_map.1 hedge
  cases heq
  exact h.texts edge old hold (hf old (mem_children_of_mem_edges hold) htext)

section
variable {container : String} {hooked : Bool} {schema : Keywords TypeExpr}
  (h : schema.Places TypeExpr.isVerbatim hooked)
  (below : ∀ type ∈ schema.children, type.isVerbatim = false →
    type.IsGenerated container hooked)

include h below

theorem Places.isGenerated (edge : Edge) {type : TypeExpr} (hedge : (edge, type) ∈ schema.edges)
    (hplace : ∀ name, edge ≠ .property name) : type.IsGenerated container hooked := by
  refine below type (mem_children_of_mem_edges hedge) (Bool.eq_false_iff.2 fun htext => ?_)
  obtain ⟨-, name, hname⟩ := h.texts edge type hedge htext
  exact hplace name hname

theorem isGenerated_ownLiteral (hempty : schema.ownLiteral.isEmpty = false) :
    (TypeExpr.object schema.ownLiteral).IsGenerated container hooked := by
  have hproperty {entry : String × TypeExpr} (he : entry ∈ schema.properties.getD []) :
      (.property entry.1, entry.2) ∈ schema.edges := mem_edges.2 he
  refine .object ?_ ?_ (List.forall_mem_map.2 fun entry he ht => ?_)
    (List.forall_mem_map.2 fun entry he ht => ?_) fun value hv => ?_
  · simp only [ObjectType.isEmpty, Bool.and_eq_false_iff] at hempty
    rcases hempty with hp | hi
    · exact .inl (by simpa [ownLiteral] using hp)
    · exact .inr (by simpa [ownLiteral] using hi)
  · rw [List.map_map]
    exact h.names
  · exact (h.texts _ _ (hproperty he) ht).1
  · exact below entry.2 (mem_children_of_mem_edges (hproperty he)) ht
  · split at hv
    · cases hv
    · cases hv
    · cases hv
      exact ⟨.any, rfl⟩
    · cases hv
      exact ⟨_, rfl⟩

theorem isGenerated_of_mem_conjuncts {type : TypeExpr} (ht : type ∈ schema.conjuncts) :
    type.IsGenerated container hooked := by
  rw [Node.conjuncts_eq] at ht
  rcases List.mem_append.1 ht with hm | ho
  · obtain ⟨member, hmember, rfl⟩ := List.mem_map.1 hm
    obtain ⟨index, hindex⟩ := List.mem_iff_getElem?.1 hmember
    exact (h.isGenerated below (.member index) (mem_edges.2 hindex) nofun).requireIn _
  · split at ho
    · cases ho
    next hempty =>
      obtain rfl := List.mem_singleton.1 ho
      exact isGenerated_ownLiteral h below (Bool.eq_false_iff.2 hempty)

theorem isGenerated_objectType : schema.objectType.IsGenerated container hooked := by
  have hconjuncts {type : TypeExpr} (ht : type ∈ schema.conjuncts) :=
    isGenerated_of_mem_conjuncts h below ht
  rw [objectType_eq]
  split
  · exact TypeExpr.isGenerated_openDictionary
  · split
    · exact TypeExpr.isGenerated_openDictionary
    next hc => exact hconjuncts (by simp [hc])
    next hnil hone =>
      refine .intersection ?_ fun member hm => hconjuncts hm
      rcases hc : schema.conjuncts with _ | ⟨conjunct, _ | _⟩
      · exact absurd hc hnil
      · exact absurd hc (hone conjunct)
      · simp

omit h below in
theorem isGenerated_scalarType : schema.scalarType.IsGenerated container hooked := by
  unfold scalarType
  split
  · exact .primitive _
  · exact .primitive _
  · rw [literalType_eq]
    exact .literal _
  next values hnil hone _ =>
    refine .union ?_ (List.forall_mem_map.2 fun value _ => ⟨_, literalType_eq value⟩)
    rcases values with _ | ⟨value, _ | _⟩
    · exact absurd rfl hnil
    · exact absurd rfl (hone value)
    · simp

/-- What a schema is a type of is in the grammar if its children are. -/
theorem isGenerated_typeOf : (schema.typeOf container).IsGenerated container hooked := by
  unfold typeOf
  split
  · exact .reference _
  · split_ifs
    · exact isGenerated_scalarType
    · exact isGenerated_objectType h below
    · cases hi : schema.items with
      | none => exact .array (.primitive .any)
      | some element =>
        exact .array (h.isGenerated below .items (mem_edges.2 hi) nofun)
    · exact .primitive .any

end

end Keywords

namespace Node

def isText : Node → Bool
  | .resolved type => type.isVerbatim
  | .pending _ => false

/-- A tree whose types are in the grammar, with text from outside as properties only. -/
inductive IsSound (container : String) (hooked : Bool) : Node → Prop
  | resolved {type : TypeExpr} (h : type.IsGenerated container hooked) :
      IsSound container hooked (.resolved type)
  | pending {schema : SchemaNode} (places : schema.Places isText hooked)
      (below : ∀ child ∈ schema.children, child.isText = false → IsSound container hooked child) :
      IsSound container hooked (.pending schema)

variable {container : String} {hooked : Bool}

/-- The type of such a tree is in the grammar. -/
theorem IsSound.isGenerated_direct {node : Node} (h : node.IsSound container hooked) :
    (node.direct container).IsGenerated container hooked := by
  induction h with
  | resolved h => exact h
  | @pending schema places below ih =>
    have htext : ∀ child ∈ schema.children,
        (child.direct container).isVerbatim → child.isText := by
      intro child hc ht
      by_contra hnot
      have hfalse := (ih child hc (Bool.eq_false_iff.2 hnot)).isVerbatim_eq_false
      exact Bool.false_ne_true (hfalse.symm.trans ht)
    rw [direct_pending]
    refine Keywords.isGenerated_typeOf (places.map htext) fun type ht hnot => ?_
    rw [Keywords.children_map] at ht
    obtain ⟨child, hc, rfl⟩ := List.mem_map.1 ht
    refine ih child hc ?_
    cases child with
    | resolved type => exact hnot
    | pending schema => rfl

end Node
end SchemaTypes
