import SchemaTypes.Text
import SchemaTypes.TypeExpr

/-! The text of type expressions. -/
namespace SchemaTypes

/-- The text of a comment: blanks run together, and no end of comment inside. -/
def docText (doc : String) : String :=
  String.ofList (Text.replacePair '*' '/' ['*', '\\', '/'] (Text.join " " (Text.words doc)).toList)

/-- The comment in front of a property and the blank after it, nothing for a blank text. -/
def docComment : Option String → String
  | none => ""
  | some doc =>
    let text := docText doc
    if text.isEmpty then "" else "/** " ++ text ++ " */ "

namespace TypeExpr

/-- Whether the text needs parentheses in front of `[]`. -/
def isComposed : TypeExpr → Bool
  | .union _ | .intersection _ => true
  | _ => false

/-- Whether the text needs parentheses between `&`. -/
def isUnion : TypeExpr → Bool
  | .union _ => true
  | _ => false

def parenthesized (yes : Bool) (text : String) : String := if yes then "(" ++ text ++ ")" else text

/-- An object literal from the texts of its members. -/
def braced : List String → String
  | [] => "\x7b\x7d"
  | members => "\x7b " ++ Text.join "; " members ++ " \x7d"

mutual
def text : TypeExpr → String
  | .primitive kind => kind.keyword
  | .literal value => Text.singleQuoted value
  | .array element => parenthesized element.isComposed (text element) ++ "[]"
  | .union members => Text.join " | " (unionTexts members)
  | .intersection members => Text.join " & " (intersectionTexts members)
  | .object body => objectText body
  | .reference container name => container ++ "[" ++ Text.singleQuoted name ++ "]"
  | .verbatim text => text

def unionTexts : List TypeExpr → List String
  | [] => []
  | member :: rest => text member :: unionTexts rest

def intersectionTexts : List TypeExpr → List String
  | [] => []
  | member :: rest => parenthesized member.isUnion (text member) :: intersectionTexts rest

def objectText : ObjectType → String
  | ⟨properties, index⟩ => braced (propertyTexts properties ++ indexTexts index)

def propertyTexts : List Property → List String
  | [] => []
  | ⟨name, type, optional, doc⟩ :: rest =>
    (docComment doc ++ Text.propertyKey name ++ (if optional then "?" else "") ++ ": " ++ text type)
      :: propertyTexts rest

def indexTexts : Option TypeExpr → List String
  | none => []
  | some value => ["[key: string]: " ++ text value]
end

end TypeExpr
end SchemaTypes
