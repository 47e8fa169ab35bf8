import Mathlib
import SchemaTypes.Proofs.ObjectLiterals

/-! Which properties of an intersection an object requires. An object literal that is a whole member
has them required; the literals inside a member that is an intersection are left as they are. -/
namespace SchemaTypes

namespace TypeExpr

mutual
/-- The members of an intersection, with those of an intersection among them in its place. Any other
type stands alone. -/
def conjuncts : TypeExpr → List TypeExpr
  | .intersection members => memberConjuncts members
  | type => [type]

def memberConjuncts : List TypeExpr → List TypeExpr
  | [] => []
  | member :: rest => conjuncts member ++ memberConjuncts rest
end

theorem conjuncts_intersection (members : List TypeExpr) :
    (intersection members).conjuncts = members.flatMap conjuncts := by
  rw [conjuncts]
  induction members with
  | nil => rfl
  | cons member rest ih => rw [memberConjuncts, ih, List.flatMap_cons]

def isIntersection : TypeExpr → Bool
  | .intersection _ => true
  | _ => false

/-- The type is no object literal in which a property with one of the names is optional. -/
def Requires (names : List String) : TypeExpr → Prop
  | .object body => ∀ property ∈ body.properties, property.name ∈ names → property.optional = false
  | _ => True

theorem requires_requireIn (names : List String) (type : TypeExpr) :
    (Node.requireIn (.ofList names) type).Requires names := by
  cases type with
  | object body =>
    obtain ⟨properties, index⟩ := body
    rw [Node.requireIn_object]
    intro property hp hn
    obtain ⟨old, -, rfl⟩ := List.mem_map.1 hp
    simp [RequiredSet.contains_ofList, hn]
  | primitive | literal | array | union | intersection | reference | verbatim => trivial

/-- A member of `allOf` has the required names required, or it is an intersection and stands in the
type of the object as it is. -/
theorem conjuncts_requireIn (required : RequiredSet) (type : TypeExpr) :
    (Node.requireIn required type).conjuncts
      = if type.isIntersection then type.conjuncts else [Node.requireIn required type] := by
  cases type with
  | object body =>
    obtain ⟨properties, index⟩ := body
    rw [Node.requireIn_object]
    rfl
  | primitive | literal | array | union | intersection | reference | verbatim => rfl

end TypeExpr

namespace Keywords

theorem requires_ownLiteral {schema : Keywords TypeExpr} {names : List String}
    (h : schema.required = .ofList names) : (TypeExpr.object schema.ownLiteral).Requires names := by
  intro property hp hn
  obtain ⟨entry, -, rfl⟩ := List.mem_map.1 hp
  simpa [h, RequiredSet.contains_ofList] using hn

/-- The conjuncts of an object are those of its members, and its own literal. -/
theorem conjuncts_objectType {schema : Keywords TypeExpr} (h : schema.isEmptyShape = false) :
    schema.objectType.conjuncts = ((schema.allOf.getD []).flatMap fun member =>
        if member.isIntersection then member.conjuncts
        else [Node.requireIn schema.required member])
      ++ if schema.ownLiteral.isEmpty then [] else [.object schema.ownLiteral] := by
  rw [flatMap_conjuncts h TypeExpr.conjuncts_intersection, Node.conjuncts_eq,
    List.flatMap_append, List.flatMap_map]
  simp only [TypeExpr.conjuncts_requireIn]
  congr 1
  cases schema.ownLiteral.isEmpty <;> rfl

end Keywords

namespace Schema

/-- What the passes make of a schema without a hook. -/
def resolved (container : String) (schema : Schema) : Node :=
  (Node.resolveComposites (Node.resolvePrimitives
    (Node.resolveReferences container (.ofSchema schema)).value)).value

/-- The type of a schema without a hook. -/
def typeIn (container : String) (schema : Schema) : TypeExpr :=
  (Node.ofSchema schema).direct container

theorem resolved_eq (container : String) (schema : Schema) :
    schema.resolved container = .resolved (schema.typeIn container) := by
  rw [resolved, Node.resolveComposites_resolvePrimitives container
    (Node.noReference_resolveReferences container _), Node.direct_resolveReferences]
  rfl

theorem typeIn_eq (container : String) (schema : Schema) :
    schema.typeIn container = (schema.keywords.map (typeIn container)).typeOf container := by
  rw [typeIn, Node.ofSchema_eq, Node.direct_pending, Keywords.map_map]
  rfl

/-- An object has the names that it requires required in its own literal, and in every member of
`allOf` that is one literal, however many schemas that literal comes through. The conjuncts of a
member that is an intersection are those in the type of that member. -/
theorem required_in_own_literal_and_whole_members (container : String) {schema : Schema}
    (hshape : schema.keywords.shape = .object) (hempty : schema.keywords.isEmptyShape = false) :
    ∃ (type : TypeExpr) (members : List TypeExpr) (own : ObjectType),
      schema.resolved container = .resolved type
      ∧ (schema.allOf.getD []).map (resolved container) = members.map .resolved
      ∧ own.properties.map Property.name = Assoc.keys (schema.properties.getD [])
      ∧ type.conjuncts = members.flatMap (fun member =>
          if member.isIntersection then member.conjuncts
          else [Node.requireIn (.ofList (schema.required.getD [])) member])
        ++ (if own.isEmpty then [] else [.object own])
      ∧ (∀ member ∈ members,
        (Node.requireIn (.ofList (schema.required.getD [])) member).Requires
          (schema.required.getD []))
      ∧ (TypeExpr.object own).Requires (schema.required.getD []) := by
  let typed := schema.keywords.map (typeIn container)
  have hallOf : typed.allOf.getD [] = (schema.allOf.getD []).map (typeIn container) :=
    Keywords.getD_allOf_map ..
  have hproperties : typed.properties.getD []
      = (schema.properties.getD []).map fun entry => (entry.1, typeIn container entry.2) :=
    Keywords.getD_properties_map ..
  have htype : schema.typeIn container = typed.objectType := by
    rw [typeIn_eq, Keywords.typeOf_eq, Keywords.shape_map, hshape]
  refine ⟨schema.typeIn container, typed.allOf.getD [], typed.ownLiteral, resolved_eq .., ?_, ?_,
    ?_, fun member _ => TypeExpr.requires_requireIn _ member, Keywords.requires_ownLiteral rfl⟩
  · simp [hallOf, resolved_eq]
  · simp [Keywords.ownLiteral, hproperties, Assoc.keys]
  · rw [htype, Keywords.conjuncts_objectType (by rw [Keywords.isEmptyShape_map, hempty])]
    rfl

/-- An object that requires a name of one member, and one within a member of two literals. -/
def namedTag : Schema :=
  { required := some ["name", "tag"]
    properties := some [("id", { type := some "integer" })]
    allOf := some [
      { properties := some [("name", { type := some "string" })] },
      { allOf := some [{ properties := some [("tag", { type := some "string" })] },
          { properties := some [("size", { type := some "number" })] }] }] }

theorem required_in_own_literal_and_whole_members_namedTag :
    namedTag.keywords.shape = .object ∧ namedTag.keywords.isEmptyShape = false
    ∧ ∃ (type : TypeExpr) (members : List TypeExpr) (own : ObjectType),
      namedTag.resolved "definitions" = .resolved type
      ∧ (namedTag.allOf.getD []).map (resolved "definitions") = members.map .resolved
      ∧ own.properties.map Property.name = ["id"]
      ∧ type.conjuncts = members.flatMap (fun member =>
          if member.isIntersection then member.conjuncts
          else [Node.requireIn (.ofList ["name", "tag"]) member])
        ++ (if own.isEmpty then [] else [.object own])
      ∧ (∀ member ∈ members,
        (Node.requireIn (.ofList ["name", "tag"]) member).Requires ["name", "tag"])
      ∧ (TypeExpr.object own).Requires ["name", "tag"] := by
  have hshape : namedTag.keywords.shape = .object := by decide
  have hempty : namedTag.keywords.isEmptyShape = false := by decide
  exact ⟨hshape, hempty, required_in_own_literal_and_whole_members "definitions" hshape hempty⟩

/-- The literal of a member within a member keeps a required name optional. -/
theorem not_required_in_every_conjunct :
    ¬ ∀ (container : String) (schema : Schema) (type : TypeExpr),
      schema.keywords.shape = .object → schema.keywords.isEmptyShape = false →
      schema.resolved container = .resolved type →
      ∀ conjunct ∈ type.conjuncts, conjunct.Requires (schema.required.getD []) := by
  intro h
  have htype : namedTag.resolved "definitions" = .resolved (.intersection [
      .object ⟨[⟨"name", .primitive .string, false, none⟩], none⟩,
      .intersection [.object ⟨[⟨"tag", .primitive .string, true, none⟩], none⟩,
        .object ⟨[⟨"size", .primitive .number, true, none⟩], none⟩],
      .object ⟨[⟨"id", .primitive .number, true, none⟩], none⟩]) := by
    cbv
  have htag := h "definitions" namedTag _ (by decide) (by decide) htype
    (.object ⟨[⟨"tag", .primitive .string, true, none⟩], none⟩)
    (by simp [TypeExpr.conjuncts, TypeExpr.memberConjuncts])
  exact absurd (htag _ (List.mem_singleton_self _) (by decide)) (by decide)

end Schema
end SchemaTypes
