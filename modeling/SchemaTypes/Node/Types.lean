import SchemaTypes.Node.Children
import SchemaTypes.Notice

/-! Types of primitives and enumerations, and then of objects, arrays and intersections. -/
namespace SchemaTypes

/-! ### Primitives and enumerations -/

/-- The text of an enumerated value as a literal. -/
def Json.literalText : Json → String
  | .string value => value
  | value => value.text

namespace Node

/-- The literals of a non-empty enumeration, otherwise the word for the declared type. -/
def primitiveType (schema : SchemaNode) : TypeExpr :=
  match schema.enum with
  | some (value :: values) =>
    TypeExpr.unionOf ((value :: values).map fun value => .literal value.literalText)
  | _ => .primitive ((schema.type.bind Primitive.ofType?).getD .any)

def resolvePrimitive (schema : SchemaNode) : Node :=
  if schema.shape = .primitive then .resolved (primitiveType schema) else .pending schema

/-- Replaces every primitive schema, from the bottom up. -/
def resolvePrimitives (node : Node) : Node :=
  Id.run (rebuildM (fun _ => pure none) (fun schema => pure (resolvePrimitive schema)) node)

/-! ### Objects, arrays and intersections

A schema with a child that it needs and that is not resolved stays as it is. -/

/-- The types of the nodes, or the nodes themselves if one is still a schema. -/
def takeTypes : List Node → Except (List Node) (List TypeExpr)
  | [] => .ok []
  | .pending schema :: rest => .error (.pending schema :: rest)
  | .resolved type :: rest =>
    match takeTypes rest with
    | .ok types => .ok (type :: types)
    | .error rest => .error (.resolved type :: rest)

/-- The nodes that `takeTypes` was given. -/
def restore : Except (List Node) (List TypeExpr) → List Node
  | .ok types => types.map .resolved
  | .error nodes => nodes

/-- The word of a primitive, and `any` for every other value type. -/
def indexType (value : Node) : TypeExpr :=
  .primitive ((value.type?.bind TypeExpr.primitive?).getD .any)

/-- Makes the required properties of an object literal required; other types stay as they are. -/
def requireIn (required : RequiredSet) : TypeExpr → TypeExpr
  | .object ⟨properties, index⟩ =>
    .object ⟨properties.map fun property =>
      if required.contains property.name then { property with optional := false } else property,
      index⟩
  | type => type

/-- The index signature that a rule for further properties gives. -/
def indexOf : Option (Additional Node) → Option TypeExpr
  | none | some (.allowed false) => none
  | some (.allowed true) => some .any
  | some (.values value) => some (indexType value)

/-- The object literal of a schema's own properties with the given types. -/
def ownObject (schema : SchemaNode) (types : List TypeExpr) : ObjectType where
  properties := (Assoc.keys (schema.properties.getD [])).zipWith
    (fun name type => ⟨name, type, !schema.required.contains name, Assoc.find? name schema.docs⟩)
    types
  index := indexOf schema.additional

/-- The type of an object whose children have these types: the members, then its own literal. -/
def objectType (schema : SchemaNode) (types memberTypes : List TypeExpr) : TypeExpr :=
  let own := ownObject schema types
  TypeExpr.intersectionOf (memberTypes.map (requireIn schema.required)
    ++ if own.isEmpty then [] else [.object own])

/-- Takes an object apart, and puts it together again if a child turns out to be a schema. -/
def assemble (schema : SchemaNode) : Noted Node :=
  let entries := schema.properties.getD []
  let types := takeTypes (entries.map Prod.snd)
  let memberTypes := takeTypes (schema.allOf.getD [])
  match types, memberTypes with
  | .ok types, .ok memberTypes => pure (.resolved (objectType schema types memberTypes))
  | types, memberTypes => do
    Noted.give .pendingChild
    return .pending { schema with
      properties := schema.properties.map fun entries =>
        (Assoc.keys entries).zip (restore types)
      allOf := schema.allOf.map fun _ => restore memberTypes }

def resolveObject (schema : SchemaNode) : Noted Node :=
  if schema.isEmptyShape then pure (.resolved .openDictionary)
  else if schema.isReady then assemble schema
  else pure (.pending schema)

def resolveArray (schema : SchemaNode) : Node :=
  match schema.items with
  | none => .resolved (.array .any)
  | some (.resolved element) => .resolved (.array element)
  | some (.pending _) => .pending schema

/-- The step at one schema, once its children are done. -/
def resolveComposite (schema : SchemaNode) : Noted Node :=
  match schema.shape with
  | .object => resolveObject schema
  | .array => pure (resolveArray schema)
  | .unknown => do
    if let some type := schema.type then Noted.give (.unknownType type)
    return .resolved .any
  | .reference | .primitive => pure (.pending schema)

/-- Replaces every object, array and unknown schema, from the bottom up. -/
def resolveComposites (node : Node) : Noted Node :=
  rebuildM (fun _ => pure none) resolveComposite node

end Node
end SchemaTypes
