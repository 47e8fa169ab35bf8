import SchemaTypes.Proofs.Stages

/-! The type of a tree in one recursion, and the three passes that find it one after the other. -/
namespace SchemaTypes

/-- An enumerated value as a literal type: the characters of a string, the JSON of any other value. -/
def Json.literalType : Json → TypeExpr
  | .string value => .literal value
  | value => .literal value.text

namespace Keywords

variable {α : Type}

/-- Whether a schema without a reference stands for a primitive or an enumeration. -/
def isScalar (schema : Keywords α) : Bool :=
  match schema.type with
  | some type => (Primitive.ofType? type).isSome
  | none => schema.enum.isSome

def isObjectShaped (schema : Keywords α) : Bool :=
  schema.type == some "object" || schema.properties.isSome || schema.allOf.isSome
    || schema.additional.isSome

/-- The values of an enumeration as literals, otherwise the word for the declared type. -/
def scalarType (schema : Keywords α) : TypeExpr :=
  match schema.enum with
  | none | some [] => .primitive ((schema.type.bind Primitive.ofType?).getD .any)
  | some [value] => value.literalType
  | some values => .union (values.map Json.literalType)

/-- The literal of the schema's own properties and of its rule for further ones. -/
def ownLiteral (schema : Keywords TypeExpr) : ObjectType where
  properties := (schema.properties.getD []).map fun (name, type) =>
    ⟨name, type, !schema.required.contains name, Assoc.find? name schema.docs⟩
  index := match schema.additional with
    | none | some (.allowed false) => none
    | some (.allowed true) => some .any
    | some (.values type) => some (.primitive (type.primitive?.getD .any))

/-- The members of the intersection that stands for an object: those of `allOf`, with the names
that the schema requires made required in literals, then the literal of its own properties. -/
def conjuncts (schema : Keywords TypeExpr) : List TypeExpr :=
  (schema.allOf.getD []).map (fun member => match member with
    | .object ⟨properties, index⟩ =>
      .object ⟨properties.map fun property => { property with
        optional := property.optional && !schema.required.contains property.name }, index⟩
    | member => member)
    ++ if schema.ownLiteral.isEmpty then [] else [.object schema.ownLiteral]

/-- Whether there are no properties and no members, and further properties are left out or ruled
out. -/
def hasNoParts (schema : Keywords α) : Bool :=
  schema.properties.all List.isEmpty && schema.allOf.all List.isEmpty
    && schema.additional.all fun rule => rule matches .allowed false

def objectType (schema : Keywords TypeExpr) : TypeExpr :=
  if schema.hasNoParts then .openDictionary
  else
    match schema.conjuncts with
    | [] => .openDictionary
    | [conjunct] => conjunct
    | conjuncts => .intersection conjuncts

/-- The type of a schema whose children have these types. -/
def typeOf (container : String) (schema : Keywords TypeExpr) : TypeExpr :=
  match schema.ref with
  | some pointer => .reference container (Pointer.name pointer).value
  | none =>
    if schema.isScalar then schema.scalarType
    else if schema.isObjectShaped then schema.objectType
    else if schema.type = some "array" ∨ schema.items.isSome then .array (schema.items.getD .any)
    else .any

end Keywords

namespace Node

mutual
/-- The type of a tree: a finished type stays, a schema has the type that its keywords and the
types of its children decide. -/
def direct (container : String) : Node → TypeExpr
  | .resolved type => type
  | .pending ⟨ref, type, format, enum, description, properties, required, additional, allOf, items,
      docs⟩ =>
    Keywords.typeOf container
      { ref, type, format, enum, description, required, docs
        properties := match properties with
          | none => none
          | some entries => some (directProperties container entries)
        additional := match additional with
          | none => none
          | some (.allowed any) => some (.allowed any)
          | some (.values child) => some (.values (direct container child))
        allOf := match allOf with
          | none => none
          | some members => some (directAll container members)
        items := match items with
          | none => none
          | some child => some (direct container child) }

def directProperties (container : String) : List (String × Node) → List (String × TypeExpr)
  | [] => []
  | (name, child) :: rest => (name, direct container child) :: directProperties container rest

def directAll (container : String) : List Node → List TypeExpr
  | [] => []
  | child :: rest => direct container child :: directAll container rest
end

theorem directProperties_eq (container : String) (entries : List (String × Node)) :
    directProperties container entries
      = entries.map fun entry => (entry.1, direct container entry.2) := by
  induction entries with
  | nil => rfl
  | cons entry rest ih => simp [directProperties, ih]

theorem directAll_eq (container : String) (children : List Node) :
    directAll container children = children.map (direct container) := by
  induction children with
  | nil => rfl
  | cons child rest ih => simp [directAll, ih]

@[simp] theorem direct_resolved (container : String) (type : TypeExpr) :
    direct container (.resolved type) = type := rfl

theorem direct_pending (container : String) (schema : SchemaNode) :
    direct container (.pending schema) = (schema.map (direct container)).typeOf container := by
  obtain ⟨ref, type, format, enum, description, properties, required, additional, allOf, items,
    docs⟩ := schema
  rw [direct.eq_def]
  refine congrArg (Keywords.typeOf container) ?_
  rw [Keywords.map]
  congr 1
  · cases properties with
    | none => rfl
    | some entries => exact congrArg some (directProperties_eq container entries)
  · rcases additional with _ | _ | _ <;> rfl
  · cases allOf with
    | none => rfl
    | some members => exact congrArg some (directAll_eq container members)
  · cases items <;> rfl

end Node

/-! ### The passes at one level -/

namespace Keywords

variable {α : Type}

theorem shape_of_ref_eq_none {schema : Keywords α} (h : schema.ref = none) :
    schema.shape = if schema.isScalar then .primitive
      else if schema.isObjectShaped then .object
      else if schema.type = some "array" ∨ schema.items.isSome then .array else .unknown := by
  rcases schema with ⟨_, type, _, enum, _, properties, _, additional, allOf, _, _⟩
  subst h
  cases type <;> cases enum <;> simp [shape, isScalar, isObjectShaped, or_assoc]

theorem shape_eq_primitive_iff {schema : Keywords α} (h : schema.ref = none) :
    schema.shape = .primitive ↔ schema.isScalar = true := by
  rw [shape_of_ref_eq_none h]
  split
  · simp_all
  · constructor
    · intro he
      split at he
      · cases he
      · split at he <;> cases he
    · intro hs
      contradiction

/-- What a schema is a type of depends on its shape. -/
theorem typeOf_eq (container : String) (schema : Keywords TypeExpr) :
    schema.typeOf container = match schema.shape with
      | .reference => .reference container (Pointer.name (schema.ref.getD "")).value
      | .primitive => schema.scalarType
      | .object => schema.objectType
      | .array => .array (schema.items.getD .any)
      | .unknown => .any := by
  cases hr : schema.ref with
  | some pointer => simp [typeOf, shape, hr]
  | none =>
    rw [shape_of_ref_eq_none hr, typeOf, hr]
    by_cases hs : schema.isScalar
    · simp [hs]
    by_cases ho : schema.isObjectShaped
    · simp [hs, ho]
    by_cases hi : schema.type = some "array" ∨ schema.items.isSome
    · simp [hs, ho, hi]
    · simp [hs, ho, hi]

@[simp] theorem isScalar_map {β : Type} (f : α → β) (schema : Keywords α) :
    (schema.map f).isScalar = schema.isScalar := rfl

@[simp] theorem scalarType_map {β : Type} (f : α → β) (schema : Keywords α) :
    (schema.map f).scalarType = schema.scalarType := rfl

theorem literalType_eq (value : Json) : value.literalType = .literal value.literalText := by
  cases value <;> rfl

theorem primitiveType_eq_scalarType (schema : SchemaNode) :
    Node.primitiveType schema = schema.scalarType := by
  unfold Node.primitiveType scalarType
  rcases schema.enum with _ | _ | ⟨value, _ | ⟨other, values⟩⟩ <;>
    simp [TypeExpr.unionOf, funext literalType_eq]

theorem hasNoParts_eq (schema : Keywords α) : schema.hasNoParts = schema.isEmptyShape := by
  rw [hasNoParts, isEmptyShape]
  rcases schema.properties with _ | _ | _ <;> rcases schema.allOf with _ | _ | _ <;>
    rcases schema.additional with _ | (_ | _) | _ <;> rfl

/-- The open dictionary stands for an empty shape. -/
theorem objectType_eq (schema : Keywords TypeExpr) :
    schema.objectType = if schema.isEmptyShape then .openDictionary
      else match schema.conjuncts with
        | [] => .openDictionary
        | [conjunct] => conjunct
        | conjuncts => .intersection conjuncts := by
  rw [objectType, hasNoParts_eq]

end Keywords

namespace Node

theorem takeTypes_resolved (types : List TypeExpr) :
    takeTypes (types.map .resolved) = .ok types :=
  takeTypes_eq_ok_iff.2 rfl

theorem requireIn_object (required : RequiredSet) (properties : List Property)
    (index : Option TypeExpr) :
    requireIn required (.object ⟨properties, index⟩)
      = .object ⟨properties.map fun property => { property with
          optional := property.optional && !required.contains property.name }, index⟩ := by
  have h (property : Property) :
      (if required.contains property.name then { property with optional := false } else property)
        = { property with optional := property.optional && !required.contains property.name } := by
    cases property
    cases hr : required.contains _ <;> simp_all
  simp only [requireIn, h]

theorem isReady_map_resolved (schema : Keywords TypeExpr) :
    SchemaNode.isReady (schema.map .resolved) = true := by
  rcases schema with ⟨_, _, _, _, _, properties, _, _, allOf, _, _⟩
  cases properties <;> cases allOf <;> simp [SchemaNode.isReady, isResolved]

theorem ownObject_map_resolved (schema : Keywords TypeExpr) :
    ownObject (schema.map .resolved) ((schema.properties.getD []).map Prod.snd)
      = schema.ownLiteral := by
  have hp (entries : List (String × TypeExpr)) :
      (Assoc.keys (entries.map fun entry => (entry.1, Node.resolved entry.2))).zipWith
        (fun name type => (⟨name, type, !schema.required.contains name,
          Assoc.find? name schema.docs⟩ : Property)) (entries.map Prod.snd)
        = entries.map fun entry => ⟨entry.1, entry.2, !schema.required.contains entry.1,
          Assoc.find? entry.1 schema.docs⟩ := by
    induction entries with
    | nil => rfl
    | cons entry rest ih =>
      simp only [Assoc.keys, List.map_cons, List.zipWith_cons_cons] at ih ⊢
      rw [ih]
  have hi : indexOf (schema.additional.map (Additional.map .resolved))
      = schema.ownLiteral.index := by
    rcases h : schema.additional with _ | (_ | _) | _ <;>
      simp [indexOf, indexType, Keywords.ownLiteral, Additional.map, Node.type?, h]
  simp only [ownObject, Keywords.getD_properties_map, hp, Keywords.map_required, Keywords.map_docs, Keywords.map_additional,
    hi]
  rfl

theorem conjuncts_eq (schema : Keywords TypeExpr) :
    schema.conjuncts = (schema.allOf.getD []).map (requireIn schema.required)
      ++ if schema.ownLiteral.isEmpty then [] else [.object schema.ownLiteral] := by
  unfold Keywords.conjuncts
  congr 2
  funext member
  rcases member with _ | _ | _ | _ | _ | ⟨properties, index⟩ | _ | _
  case object => exact (requireIn_object ..).symm
  all_goals rfl

theorem objectType_map_resolved (schema : Keywords TypeExpr) :
    objectType (schema.map .resolved) ((schema.properties.getD []).map Prod.snd)
      (schema.allOf.getD []) = match schema.conjuncts with
      | [] => .openDictionary
      | [conjunct] => conjunct
      | conjuncts => .intersection conjuncts := by
  simp only [objectType, ownObject_map_resolved, Keywords.map_required, ← conjuncts_eq]
  rcases schema.conjuncts with _ | ⟨_, _ | _⟩ <;> rfl

theorem resolveObject_map_resolved (schema : Keywords TypeExpr) :
    resolveObject (schema.map .resolved) = pure (.resolved schema.objectType) := by
  unfold resolveObject
  rw [Keywords.objectType_eq, Keywords.isEmptyShape_map, isReady_map_resolved]
  split
  · rfl
  · have hp : (((schema.map Node.resolved).properties.getD []).map Prod.snd)
        = ((schema.properties.getD []).map Prod.snd).map .resolved := by
      rw [Keywords.getD_properties_map, List.map_map, List.map_map]
      rfl
    simp only [assemble, hp, Keywords.getD_allOf_map, takeTypes_resolved, objectType_map_resolved, if_true]

/-- A schema whose children have types gets the type that its keywords decide. -/
theorem resolveComposite_map_resolved (container : String) {schema : Keywords TypeExpr}
    (hr : schema.ref = none) (hs : schema.isScalar = false) :
    (resolveComposite (schema.map .resolved)).value
      = .resolved (schema.typeOf container) := by
  have hshape := Keywords.shape_of_ref_eq_none hr
  by_cases ho : schema.isObjectShaped
  · simp [resolveComposite, Keywords.typeOf, hshape, hr, hs, ho, resolveObject_map_resolved]
  by_cases hi : schema.type = some "array" ∨ schema.items.isSome
  · have ha : resolveArray (schema.map .resolved)
        = .resolved (.array (schema.items.getD .any)) := by
      cases h : schema.items <;> simp [resolveArray, h]
    simp [resolveComposite, Keywords.typeOf, hshape, hr, hs, ho, hi, ha]
  · cases ht : schema.type <;>
      simp_all [resolveComposite, Keywords.typeOf]

/-- Without references and primitives every position has its type. -/
theorem resolveComposites_of_noReference_of_noPrimitive (container : String) {node : Node}
    (hr : node.NoReference) (hp : node.NoPrimitive) :
    (resolveComposites node).value = .resolved (node.direct container) := by
  induction node using Node.induction with
  | resolved type => simp
  | pending schema ih =>
    obtain ⟨ref, refs⟩ := everywhere_pending_iff.1 hr
    obtain ⟨shape, shapes⟩ := everywhere_pending_iff.1 hp
    have hc : schema.map (fun child => (resolveComposites child).value)
        = (schema.map (direct container)).map .resolved := by
      rw [Keywords.map_map]
      exact Keywords.map_congr fun child h => ih child h (refs child h) (shapes child h)
    rw [resolveComposites_pending, direct_pending, hc]
    apply resolveComposite_map_resolved container ref
    simpa [Keywords.shape_eq_primitive_iff ref] using shape

theorem direct_resolveReferences (container : String) (node : Node) :
    (resolveReferences container node).value.direct container = node.direct container := by
  induction node using Node.induction with
  | resolved type => simp
  | pending schema ih =>
    rw [resolveReferences_pending, direct_pending]
    cases hr : schema.ref with
    | some pointer => simp [Keywords.typeOf, hr]
    | none =>
      simp only [direct_pending, Keywords.map_map]
      exact congrArg _ (Keywords.map_congr ih)

theorem direct_resolvePrimitives (container : String) {node : Node} (h : node.NoReference) :
    (resolvePrimitives node).direct container = node.direct container := by
  induction node using Node.induction with
  | resolved type => simp
  | pending schema ih =>
    obtain ⟨ref, below⟩ := everywhere_pending_iff.1 h
    have hc : schema.map (direct container ∘ resolvePrimitives) = schema.map (direct container) :=
      Keywords.map_congr fun child hc => ih child hc (below child hc)
    rw [resolvePrimitives_pending, resolvePrimitive, Keywords.shape_map, direct_pending]
    split
    next hs =>
      have hs := (Keywords.shape_eq_primitive_iff ref).1 hs
      simp [Keywords.typeOf, ref, hs, Keywords.primitiveType_eq_scalarType]
    next => rw [direct_pending, Keywords.map_map, hc]

/-- A tree without references goes through the last two passes to its direct type. -/
theorem resolveComposites_resolvePrimitives (container : String) {node : Node}
    (h : node.NoReference) :
    (resolveComposites (resolvePrimitives node)).value = .resolved (node.direct container) := by
  rw [resolveComposites_of_noReference_of_noPrimitive container (noReference_resolvePrimitives h)
    (noPrimitive_resolvePrimitives node), direct_resolvePrimitives container h]

/-- Resolving references, then primitives, then composites gives every tree the type that the one
recursion gives it, and leaves nothing unresolved. -/
theorem staged_passes_eq_direct (container : String) (node : Node) :
    (resolveComposites (resolvePrimitives (resolveReferences container node).value)).value
      = .resolved (node.direct container) := by
  rw [resolveComposites_resolvePrimitives container (noReference_resolveReferences container node),
    direct_resolveReferences]

end Node
end SchemaTypes
