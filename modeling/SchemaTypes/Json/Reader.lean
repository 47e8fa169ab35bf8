import SchemaTypes.Item
import SchemaTypes.Json.Token

/-! Reading JSON text. -/
namespace SchemaTypes.Json

/-- A container that is open, with what it holds so far in reverse order. -/
inductive Frame where
  | list (items : List Item)
  /-- An object whose next value belongs to `key`. -/
  | table (entries : List (Item × Item)) (key : Item)

/-- What may come next. -/
inductive Expect where
  | value
  | itemOrClose
  | nameOrClose
  | name (entries : List (Item × Item))
  | colon (entries : List (Item × Item)) (key : Item)
  /-- A value is complete. -/
  | after (value : Item)

/-- How many arrays and objects may be open around a kept value, itself included. -/
def maxDepth : Nat := 127

/-- A container, once closed inside `stack`: fewer than `maxDepth` containers may be open there. -/
def closed (stack : List Frame) (item : Item) : Item :=
  if (stack.drop (maxDepth - 1)).isEmpty then item else .unreadable

def textItem : Option String → Item
  | some s => .text s
  | none => .unreadable

/-- A value that is one token. -/
def scalar? : Token → Option Item
  | .null => some .null
  | .bool value => some (.bool value)
  | .number (some value) => some (.number value)
  | .number none => some .unreadable
  | .string value => some (textItem value)
  | _ => none

/-- The one value that the tokens spell. -/
def build? (expect : Expect) (stack : List Frame) : List Token → Option Item
  | [] =>
    match expect, stack with
    | .after value, [] => some value
    | _, _ => none
  | token :: rest =>
    match expect with
    | .value | .itemOrClose =>
      match token with
      | .openArray => build? .itemOrClose (.list [] :: stack) rest
      | .openObject => build? .nameOrClose stack rest
      | .closeArray =>
        match expect, stack with
        | .itemOrClose, .list _ :: stack => build? (.after (closed stack (.list []))) stack rest
        | _, _ => none
      | token =>
        match scalar? token with
        | some item => build? (.after item) stack rest
        | none => none
    | .nameOrClose =>
      match token with
      | .closeObject => build? (.after (closed stack (.table []))) stack rest
      | .string name => build? (.colon [] (textItem name)) stack rest
      | _ => none
    | .name entries =>
      match token with
      | .string name => build? (.colon entries (textItem name)) stack rest
      | _ => none
    | .colon entries key =>
      match token with
      | .colon => build? .value (.table entries key :: stack) rest
      | _ => none
    | .after value =>
      match stack with
      | [] => none
      | .list items :: stack =>
        match token with
        | .comma => build? .value (.list (value :: items) :: stack) rest
        | .closeArray =>
          build? (.after (closed stack (.list (value :: items).reverse))) stack rest
        | _ => none
      | .table entries key :: stack =>
        match token with
        | .comma => build? (.name ((key, value) :: entries)) stack rest
        | .closeObject =>
          build? (.after (closed stack (.table ((key, value) :: entries).reverse))) stack rest
        | _ => none

/-- The value that a whole text spells. -/
def item? (s : String) : Option Item := do build? .value [] (← tokens? s)

end SchemaTypes.Json
