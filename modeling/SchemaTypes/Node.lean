import SchemaTypes.Assoc
import SchemaTypes.RequiredSet
import SchemaTypes.TypeExpr

/-! The tree between a schema and its type: every position is a schema still, or a finished type
that nothing looks into again. -/
namespace SchemaTypes

/-- The keywords of one schema, with children of any kind. -/
structure Keywords (α : Type) where
  ref : Option String := none
  type : Option String := none
  format : Option String := none
  enum : Option (List Json) := none
  description : Option String := none
  properties : Option (List (String × α)) := none
  required : RequiredSet := .empty
  additional : Option (Additional α) := none
  allOf : Option (List α) := none
  items : Option α := none
  /-- Descriptions of properties, which outlive the schemas they were written in. -/
  docs : List (String × String) := []

inductive Node where
  | pending (schema : Keywords Node)
  | resolved (type : TypeExpr)

instance : Inhabited Node := ⟨.resolved .any⟩

/-- A position that is still a schema. -/
abbrev SchemaNode := Keywords Node

/-- What a schema describes. -/
inductive Shape where
  | reference
  | primitive
  | object
  | array
  /-- Neither a known type nor any structure. -/
  | unknown
deriving DecidableEq, Repr

namespace Node

def isResolved : Node → Bool
  | .resolved _ => true
  | .pending _ => false

def type? : Node → Option TypeExpr
  | .resolved type => some type
  | .pending _ => none

/-- The descriptions written in the schemas of properties. -/
def describedIn (properties : Option (List (String × Schema))) : List (String × String) :=
  Assoc.ofList ((properties.getD []).filterMap fun (name, schema) =>
    schema.description.map (name, ·))

mutual
def ofSchema : Schema → Node
  | ⟨ref, type, format, enum, description, properties, required, additional, allOf, items⟩ =>
    .pending
      { ref, type, format, enum, description
        properties := match properties with
          | none => none
          | some entries => some (ofProperties entries)
        required := RequiredSet.ofList (required.getD [])
        additional := match additional with
          | none => none
          | some (.allowed any) => some (.allowed any)
          | some (.values schema) => some (.values (ofSchema schema))
        allOf := match allOf with
          | none => none
          | some members => some (ofSchemas members)
        items := match items with
          | none => none
          | some schema => some (ofSchema schema)
        docs := describedIn properties }

def ofProperties : List (String × Schema) → List (String × Node)
  | [] => []
  | (name, schema) :: rest => (name, ofSchema schema) :: ofProperties rest

def ofSchemas : List Schema → List Node
  | [] => []
  | schema :: rest => ofSchema schema :: ofSchemas rest
end

end Node

namespace Keywords

variable {α : Type}

/-- References come first, then primitives, then structure. -/
def shape (schema : Keywords α) : Shape :=
  if schema.ref.isSome then .reference
  else if (schema.type.bind Primitive.ofType?).isSome then .primitive
  else if schema.type.isNone ∧ schema.enum.isSome then .primitive
  else if schema.type = some "object" ∨ schema.properties.isSome ∨ schema.allOf.isSome
      ∨ schema.additional.isSome then .object
  else if schema.type = some "array" ∨ schema.items.isSome then .array
  else .unknown

/-- Whether the schema has no property, no member, and no rule that allows further properties. -/
def isEmptyShape (schema : Keywords α) : Bool :=
  (schema.properties.getD []).isEmpty && (schema.allOf.getD []).isEmpty &&
    match schema.additional with
    | none | some (.allowed false) => true
    | _ => false

end Keywords

/-- Whether every property and every member is resolved. -/
def SchemaNode.isReady (schema : SchemaNode) : Bool :=
  (schema.allOf.getD []).all Node.isResolved &&
    (schema.properties.getD []).all fun entry => entry.2.isResolved

end SchemaTypes
