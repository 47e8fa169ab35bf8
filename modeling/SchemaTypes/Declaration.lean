import SchemaTypes.Node
import SchemaTypes.TypeExpr.Text

/-! The text of the interface that holds every definition. -/
namespace SchemaTypes
namespace Declaration

/-- What stands in front of the interface by default. -/
def defaultBanner : String :=
  "/**\n * This file was auto-generated by swagger-ts.\n"
    ++ " * Do not make direct changes to the file.\n */\n"

def header (container : String) : String := "\n\n\nexport interface " ++ container ++ " \x7b\n"

def member (name : String) (type : TypeExpr) : String :=
  "  " ++ Json.quote name ++ ": " ++ type.text ++ ";\n"

/-- The members in order, or the name of the first definition without a type. -/
def members : List (String × Node) → Except String String
  | [] => .ok ""
  | (name, .pending _) :: _ => .error name
  | (name, .resolved type) :: rest =>
    match members rest with
    | .ok text => .ok (member name type ++ text)
    | .error name => .error name

/-- The whole file, or the name of the first definition without a type. -/
def file (definitions : List (String × Node)) (container banner : String) : Except String String :=
  match members definitions with
  | .ok text => .ok (banner ++ header container ++ text ++ "\x7d\n")
  | .error name => .error name

end Declaration
end SchemaTypes
