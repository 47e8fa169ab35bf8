import SchemaTypes.Json.Value

/-! Swagger 2.0 schemas: the keywords that decide a type. -/
namespace SchemaTypes

/-- The rule for undeclared properties: all or none of them, or those with values of a schema. -/
inductive Additional (α : Type) where
  | allowed (any : Bool)
  | values (schema : α)
deriving Repr

/-- A schema as it is written. An absent keyword is `none`. -/
structure Schema where
  ref : Option String := none
  type : Option String := none
  format : Option String := none
  enum : Option (List Json) := none
  description : Option String := none
  properties : Option (List (String × Schema)) := none
  required : Option (List String) := none
  additional : Option (Additional Schema) := none
  allOf : Option (List Schema) := none
  items : Option Schema := none

instance : Inhabited Schema := ⟨{}⟩

/-- The part of a Swagger document that is read: its named schemas, in order. -/
structure Document where
  definitions : Option (List (String × Schema)) := none

/-- A keyword of a schema. -/
inductive Keyword where
  | ref
  | type
  | format
  | enum
  | description
  | properties
  | required
  | additional
  | allOf
  | items
deriving DecidableEq, Repr

namespace Keyword

/-- Every keyword, in the order of a schema that is written as a list. -/
def all : List Keyword :=
  [.ref, .type, .format, .enum, .description, .properties, .required, .additional, .allOf, .items]

def name : Keyword → String
  | .ref => "$ref"
  | .type => "type"
  | .format => "format"
  | .enum => "enum"
  | .description => "description"
  | .properties => "properties"
  | .required => "required"
  | .additional => "additionalProperties"
  | .allOf => "allOf"
  | .items => "items"

def ofName? (name : String) : Option Keyword := all.find? fun keyword => keyword.name == name

theorem ofName?_name (keyword : Keyword) : ofName? keyword.name = some keyword := by
  cases keyword <;> decide

theorem ofName?_eq_some_iff {name : String} {keyword : Keyword} :
    ofName? name = some keyword ↔ keyword.name = name := by
  constructor
  · intro h
    simpa using List.find?_some h
  · rintro rfl
    exact ofName?_name keyword

theorem name_inj {keyword other : Keyword} (h : keyword.name = other.name) : keyword = other := by
  have hsame := congrArg ofName? h
  rw [ofName?_name, ofName?_name] at hsame
  exact Option.some.inj hsame

end Keyword

/-- The types that stand for a primitive, with the word each is written as. -/
inductive Primitive where
  | string
  | number
  | boolean
  | any
deriving DecidableEq, Repr

namespace Primitive

def keyword : Primitive → String
  | .string => "string"
  | .number => "number"
  | .boolean => "boolean"
  | .any => "any"

/-- The declared types that stand for a primitive; some formats count as string types. -/
def table : List (String × Primitive) :=
  [("boolean", .boolean), ("binary", .string), ("byte", .string), ("date", .string),
    ("dateTime", .string), ("password", .string), ("string", .string), ("double", .number),
    ("float", .number), ("integer", .number), ("number", .number)]

def ofType? (type : String) : Option Primitive := table.lookup type

/-- Whether a declared type is a primitive, an object or an array. -/
def isKnownType (type : String) : Bool :=
  type == "object" || type == "array" || (ofType? type).isSome

end Primitive
end SchemaTypes
