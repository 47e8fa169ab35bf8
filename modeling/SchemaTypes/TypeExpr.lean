import SchemaTypes.Schema

/-! TypeScript type expressions. -/
namespace SchemaTypes

mutual
inductive TypeExpr where
  | primitive (kind : Primitive)
  /-- A string literal type. -/
  | literal (text : String)
  | array (element : TypeExpr)
  | union (members : List TypeExpr)
  | intersection (members : List TypeExpr)
  | object (body : ObjectType)
  /-- The member `name` of the interface `container`. -/
  | reference (container name : String)
  /-- Type text from outside, written as it is. -/
  | verbatim (text : String)

/-- An object literal: properties in order, and the value type of `[key: string]`, if any. -/
structure ObjectType where
  properties : List Property
  index : Option TypeExpr

structure Property where
  name : String
  type : TypeExpr
  optional : Bool
  /-- Text of the comment in front of the property. -/
  doc : Option String
end

namespace TypeExpr

instance : Inhabited TypeExpr := ⟨.primitive .any⟩

def any : TypeExpr := .primitive .any

/-- An object with any keys and values. -/
def openDictionary : TypeExpr := .object ⟨[], some any⟩

/-- The intersection of the members: one member stands for itself, none for the open dictionary. -/
def intersectionOf : List TypeExpr → TypeExpr
  | [] => openDictionary
  | [member] => member
  | members => .intersection members

/-- The union of the members, where one member stands for itself. -/
def unionOf : List TypeExpr → TypeExpr
  | [member] => member
  | members => .union members

def primitive? : TypeExpr → Option Primitive
  | .primitive kind => some kind
  | _ => none

end TypeExpr

/-- Whether the literal has neither properties nor an index signature. -/
def ObjectType.isEmpty (object : ObjectType) : Bool :=
  object.properties.isEmpty && object.index.isNone

end SchemaTypes
