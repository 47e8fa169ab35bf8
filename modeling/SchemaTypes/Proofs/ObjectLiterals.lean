import SchemaTypes.Proofs.Direct

/-! The object literals in a type, and those in the type of an object: of its members, and its
own. -/
namespace SchemaTypes

/-- What an object literal says about a property beside its type. -/
structure Face where
  name : String
  optional : Bool
  doc : Option String
deriving DecidableEq, Repr

def Face.requiredIn (required : RequiredSet) (face : Face) : Face :=
  { face with optional := face.optional && !required.contains face.name }

def Property.face (property : Property) : Face := ⟨property.name, property.optional, property.doc⟩

namespace TypeExpr

mutual
/-- The object literals in a type, in the order of its text, each with the faces of its
properties. -/
def literals : TypeExpr → List (List Face)
  | .array element => literals element
  | .union members => memberLiterals members
  | .intersection members => memberLiterals members
  | .object ⟨properties, index⟩ =>
    properties.map Property.face :: (propertyLiterals properties ++ indexLiterals index)
  | _ => []

def memberLiterals : List TypeExpr → List (List Face)
  | [] => []
  | member :: rest => literals member ++ memberLiterals rest

def propertyLiterals : List Property → List (List Face)
  | [] => []
  | ⟨_, type, _, _⟩ :: rest => literals type ++ propertyLiterals rest

def indexLiterals : Option TypeExpr → List (List Face)
  | none => []
  | some value => literals value
end

def isObject : TypeExpr → Bool
  | .object _ => true
  | _ => false

theorem memberLiterals_eq_flatMap (members : List TypeExpr) :
    memberLiterals members = members.flatMap literals := by
  induction members with
  | nil => rfl
  | cons member rest ih => rw [memberLiterals, ih, List.flatMap_cons]

theorem propertyLiterals_eq_flatMap (properties : List Property) :
    propertyLiterals properties = properties.flatMap fun property => property.type.literals := by
  induction properties with
  | nil => rfl
  | cons property rest ih =>
    obtain ⟨name, type, optional, doc⟩ := property
    rw [propertyLiterals, ih, List.flatMap_cons]

theorem literals_intersection (members : List TypeExpr) :
    (intersection members).literals = members.flatMap literals := by
  rw [literals, memberLiterals_eq_flatMap]

end TypeExpr

namespace Keywords

variable {α β : Type}

/-- The faces of the literal of the schema's own properties. -/
def ownFaces (schema : Keywords α) : List Face :=
  (schema.properties.getD []).map fun entry =>
    ⟨entry.1, !schema.required.contains entry.1, Assoc.find? entry.1 schema.docs⟩

theorem ownFaces_eq (schema : Keywords α) :
    schema.ownFaces = (Assoc.keys (schema.properties.getD [])).map fun name =>
      ⟨name, !schema.required.contains name, Assoc.find? name schema.docs⟩ := by
  simp [ownFaces, Assoc.keys]

def hasOwnLiteral (schema : Keywords α) : Bool :=
  !(schema.properties.getD []).isEmpty || match schema.additional with
    | none | some (.allowed false) => false
    | _ => true

@[simp] theorem ownFaces_map (f : α → β) (schema : Keywords α) :
    (schema.map f).ownFaces = schema.ownFaces := by
  cases h : schema.properties <;> simp [ownFaces, h]

@[simp] theorem hasOwnLiteral_map (f : α → β) (schema : Keywords α) :
    (schema.map f).hasOwnLiteral = schema.hasOwnLiteral := by
  rcases schema with ⟨_, _, _, _, _, properties, _, additional, _, _, _⟩
  rcases additional with _ | (_ | _) | _ <;> cases properties <;>
    simp [hasOwnLiteral, map, Additional.map]

theorem isEmpty_ownLiteral (schema : Keywords TypeExpr) :
    schema.ownLiteral.isEmpty = !schema.hasOwnLiteral := by
  rcases schema with ⟨_, _, _, _, _, properties, _, additional, _, _, _⟩
  rcases additional with _ | (_ | _) | _ <;> cases properties <;>
    simp [hasOwnLiteral, ObjectType.isEmpty, ownLiteral]

theorem isEmptyShape_eq (schema : Keywords α) :
    schema.isEmptyShape = (!schema.hasOwnLiteral && (schema.allOf.getD []).isEmpty) := by
  rcases schema with ⟨_, _, _, _, _, properties, _, additional, allOf, _, _⟩
  rcases additional with _ | (_ | _) | _ <;> simp [hasOwnLiteral, isEmptyShape]

theorem literals_ownLiteral (schema : Keywords TypeExpr) :
    (TypeExpr.object schema.ownLiteral).literals = schema.ownFaces
      :: (schema.properties.getD []).flatMap fun entry => entry.2.literals := by
  have hindex : TypeExpr.indexLiterals schema.ownLiteral.index = [] := by
    rcases h : schema.additional with _ | (_ | _) | _ <;>
      simp [ownLiteral, h, TypeExpr.indexLiterals, TypeExpr.any, TypeExpr.literals]
  show _ :: (TypeExpr.propertyLiterals schema.ownLiteral.properties
    ++ TypeExpr.indexLiterals schema.ownLiteral.index) = _
  rw [hindex, TypeExpr.propertyLiterals_eq_flatMap, List.append_nil]
  simp only [ownLiteral, ownFaces, List.map_map, List.flatMap_map, Function.comp_def, Property.face]

/-- Requiring names in a type changes the faces of its literal, if it is one. -/
theorem literals_requireIn (required : RequiredSet) (type : TypeExpr) :
    (Node.requireIn required type).literals = if type.isObject then
        type.literals.modifyHead (List.map (.requiredIn required))
      else type.literals := by
  cases type with
  | object body =>
    obtain ⟨properties, index⟩ := body
    rw [Node.requireIn_object]
    simp only [TypeExpr.literals, TypeExpr.isObject, TypeExpr.propertyLiterals_eq_flatMap,
      List.flatMap_map, List.map_map, if_true, List.modifyHead_cons]
    rfl
  | primitive | literal | array | union | intersection | reference | verbatim => rfl

theorem length_conjuncts (schema : Keywords TypeExpr) : schema.conjuncts.length
    = (schema.allOf.getD []).length + if schema.hasOwnLiteral then 1 else 0 := by
  rw [Node.conjuncts_eq, isEmpty_ownLiteral, List.length_append, List.length_map]
  cases schema.hasOwnLiteral <;> rfl

theorem conjuncts_ne_nil {schema : Keywords TypeExpr} (h : schema.isEmptyShape = false) :
    schema.conjuncts ≠ [] := by
  rw [isEmptyShape_eq] at h
  rw [Node.conjuncts_eq, isEmpty_ownLiteral]
  cases ho : schema.hasOwnLiteral with
  | true => simp
  | false => simpa [ho] using h

/-- What is collected from the members of intersections is collected from the conjuncts of an
object, whatever their number. -/
theorem flatMap_conjuncts {schema : Keywords TypeExpr} (h : schema.isEmptyShape = false)
    {collect : TypeExpr → List β}
    (hc : ∀ members, collect (.intersection members) = members.flatMap collect) :
    collect schema.objectType = schema.conjuncts.flatMap collect := by
  rw [objectType_eq, h]
  rcases hconjuncts : schema.conjuncts with _ | ⟨conjunct, _ | ⟨other, rest⟩⟩
  · exact absurd hconjuncts (conjuncts_ne_nil h)
  · simp
  · exact hc _

theorem literals_objectType (schema : Keywords TypeExpr) :
    schema.objectType.literals = if schema.isEmptyShape then [[]]
      else ((schema.allOf.getD []).flatMap fun member =>
          if member.isObject then
            member.literals.modifyHead (List.map (.requiredIn schema.required))
          else member.literals)
        ++ if schema.hasOwnLiteral then schema.ownFaces
          :: (schema.properties.getD []).flatMap fun entry => entry.2.literals
        else [] := by
  cases he : schema.isEmptyShape with
  | true => simp [objectType_eq, he, TypeExpr.openDictionary, TypeExpr.literals,
      TypeExpr.propertyLiterals, TypeExpr.indexLiterals, TypeExpr.any]
  | false =>
    rw [flatMap_conjuncts he TypeExpr.literals_intersection, Node.conjuncts_eq,
      List.flatMap_append, List.flatMap_map, isEmpty_ownLiteral]
    simp only [literals_requireIn, Bool.false_eq_true, if_false]
    cases schema.hasOwnLiteral with
    | true => simp [literals_ownLiteral]
    | false => simp

theorem literals_scalarType (schema : Keywords α) : schema.scalarType.literals = [] := by
  unfold scalarType
  split
  · rfl
  · rfl
  · rw [literalType_eq]
    rfl
  next values _ _ =>
    rw [TypeExpr.literals, TypeExpr.memberLiterals_eq_flatMap]
    simp [literalType_eq, TypeExpr.literals]

end Keywords

namespace Node

theorem isObject_requireIn (required : RequiredSet) (type : TypeExpr) :
    (requireIn required type).isObject = type.isObject := by
  cases type with
  | object body =>
    cases body
    rfl
  | primitive | literal | array | union | intersection | reference | verbatim => rfl

/-- If the type of an object is one literal, this is its own, or that of its one member. -/
theorem conjunct_of_isObject {schema : Keywords TypeExpr} (he : schema.isEmptyShape = false)
    (h : schema.objectType.isObject) :
    schema.allOf.getD [] = [] ∧ schema.hasOwnLiteral
      ∨ ∃ member, schema.allOf.getD [] = [member] ∧ schema.hasOwnLiteral = false
        ∧ member.isObject := by
  have hlength := schema.length_conjuncts
  rw [Keywords.objectType_eq, he] at h
  rcases hc : schema.conjuncts with _ | ⟨conjunct, _ | _⟩
  · exact absurd hc (Keywords.conjuncts_ne_nil he)
  · rw [hc] at h hlength
    cases ho : schema.hasOwnLiteral with
    | true =>
      rw [ho] at hlength
      exact .inl ⟨List.length_eq_zero_iff.1 (by simpa using hlength.symm), rfl⟩
    | false =>
      rw [ho] at hlength
      obtain ⟨member, hmember⟩ := List.length_eq_one_iff.1 hlength.symm
      rw [conjuncts_eq, schema.isEmpty_ownLiteral, ho, hmember] at hc
      obtain ⟨rfl, -⟩ := List.cons.inj hc
      exact .inr ⟨member, hmember, rfl, (isObject_requireIn schema.required member).symm.trans h⟩
  · rw [hc] at h
    cases h

end Node
end SchemaTypes
