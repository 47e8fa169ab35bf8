import SchemaTypes.Proofs.TypeToken

/-! The grammar of type expressions, read from left to right. `[]` binds tighter than `&`, and `&`
tighter than `|`. Of the operators in front of a type none is known, so every identifier with a
quoted name in brackets behind it is a reference. -/
namespace SchemaTypes

/-- What is read of a type so far: the alternatives in front of the last bar, and the factors of
the alternative behind it. -/
structure Phrase where
  alternatives : List TypeExpr := []
  factors : List TypeExpr := []

namespace Phrase

def and (phrase : Phrase) (type : TypeExpr) : Phrase :=
  ⟨phrase.alternatives, phrase.factors ++ [type]⟩

/-- The alternatives, once the type is the last factor. -/
def allWith (phrase : Phrase) (type : TypeExpr) : List TypeExpr :=
  phrase.alternatives ++ [.intersectionOf (phrase.factors ++ [type])]

def or (phrase : Phrase) (type : TypeExpr) : Phrase := ⟨phrase.allWith type, []⟩

def close (phrase : Phrase) (type : TypeExpr) : TypeExpr := .unionOf (phrase.allWith type)

end Phrase

/-- A bracket that is open, and what was read before it. -/
inductive Frame where
  | parenthesis (outer : Phrase)
  /-- The property whose type is read, and those in front of it. -/
  | property (outer : Phrase) (before : List Property) (doc : Option String) (name : String)
    (optional : Bool)
  | index (outer : Phrase) (before : List Property)

def Primitive.ofKeyword? (word : String) : Option Primitive :=
  [string, number, boolean, any].find? fun kind => kind.keyword = word

theorem Primitive.ofKeyword?_keyword (kind : Primitive) : ofKeyword? kind.keyword = some kind := by
  cases kind <;> decide

namespace TypeGrammar

mutual
/-- Reads on where an operand has to stand. -/
def operand (frames : List Frame) (phrase : Phrase) : List TypeToken → Option TypeExpr
  | .word container :: .leftBracket :: .quoted name :: .rightBracket :: rest =>
    after frames phrase (.reference container name) rest
  | .word word :: rest =>
    match Primitive.ofKeyword? word with
    | some kind => after frames phrase (.primitive kind) rest
    | none => none
  | .quoted text :: rest => after frames phrase (.literal text) rest
  | .leftParen :: rest => operand (.parenthesis phrase :: frames) {} rest
  | .leftBrace :: rest => member frames phrase [] rest
  | _ => none

/-- Reads on behind an operand. -/
def after (frames : List Frame) (phrase : Phrase) (type : TypeExpr) :
    List TypeToken → Option TypeExpr
  | .leftBracket :: .rightBracket :: rest => after frames phrase (.array type) rest
  | .ampersand :: rest => operand frames (phrase.and type) rest
  | .bar :: rest => operand frames (phrase.or type) rest
  | .rightParen :: rest =>
    match frames with
    | .parenthesis outer :: frames => after frames outer (phrase.close type) rest
    | _ => none
  | .semicolon :: rest =>
    match frames with
    | .property outer before doc name optional :: frames =>
      member frames outer (before ++ [⟨name, phrase.close type, optional, doc⟩]) rest
    | _ => none
  | .rightBrace :: rest =>
    match frames with
    | .property outer before doc name optional :: frames =>
      after frames outer (.object ⟨before ++ [⟨name, phrase.close type, optional, doc⟩], none⟩) rest
    | .index outer before :: frames =>
      after frames outer (.object ⟨before, some (phrase.close type)⟩) rest
    | _ => none
  | [] => if frames.isEmpty then some (phrase.close type) else none
  | _ => none

/-- Reads on inside an object literal, where a member may stand. -/
def member (frames : List Frame) (outer : Phrase) (before : List Property) :
    List TypeToken → Option TypeExpr
  | .rightBrace :: rest => after frames outer (.object ⟨before, none⟩) rest
  | .leftBracket :: .word _ :: .colon :: .word type :: .rightBracket :: .colon :: rest =>
    if type = Primitive.string.keyword then operand (.index outer before :: frames) {} rest
    else none
  | .doc text :: .word name :: rest => key frames outer before (some text) name rest
  | .doc text :: .quoted name :: rest => key frames outer before (some text) name rest
  | .word name :: rest => key frames outer before none name rest
  | .quoted name :: rest => key frames outer before none name rest
  | _ => none

/-- Reads on behind the name of a property. -/
def key (frames : List Frame) (outer : Phrase) (before : List Property) (doc : Option String)
    (name : String) : List TypeToken → Option TypeExpr
  | .question :: .colon :: rest =>
    operand (.property outer before doc name true :: frames) {} rest
  | .colon :: rest => operand (.property outer before doc name false :: frames) {} rest
  | _ => none
end

end TypeGrammar

/-- The type that a text says, if all of the text is one type. -/
def TypeExpr.ofText? (text : String) : Option TypeExpr :=
  (TypeToken.lex text.toList).bind (TypeGrammar.operand [] {})

end SchemaTypes
