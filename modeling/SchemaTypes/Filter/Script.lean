/-! Scripts for the shell: names, words and commands. -/
namespace SchemaTypes.Filter

def isNameStart (c : Char) : Bool := c.isAlpha || c == '_'

def isNameChar (c : Char) : Bool := c.isAlphanum || c == '_'

def isName (text : String) : Bool :=
  match text.toList with
  | [] => false
  | c :: cs => isNameStart c && cs.all isNameChar

/-- What an expansion makes of a parameter. With `orEmpty` an empty one counts as unset. -/
inductive Alteration where
  /-- The operand stands in for an unset parameter. -/
  | substitute (orEmpty : Bool)
  /-- It also becomes its value. -/
  | assign (orEmpty : Bool)
  /-- It is what to say of an unset parameter. -/
  | demand (orEmpty : Bool)
  /-- It stands in for a parameter that is set. -/
  | alternative (orEmpty : Bool)
  /-- It is a pattern for what is cut off. -/
  | cutFront (longest : Bool)
  | cutBack (longest : Bool)
deriving DecidableEq, Repr

/-- Whether the operand is a pattern. -/
def Alteration.cuts : Alteration → Bool
  | .cutFront _ | .cutBack _ => true
  | _ => false

/-- A piece of a word. What is quoted is not split into fields. -/
inductive Piece where
  | text (value : String) (quoted : Bool)
  | parameter (name : String) (quoted : Bool)
  | length (name : String)
  | altered (name : String) (alteration : Alteration) (operand : List Piece) (quoted : Bool)
  /-- The output of a script, which begins in that line, or between back quotes counts its own. -/
  | output (line : Option Nat) (script : String) (quoted : Bool)
  /-- The value of an arithmetic expression. -/
  | sum (expression : List Piece) (quoted : Bool)
  /-- Braces around something that is no expansion. -/
  | malformed
deriving Repr

abbrev Word := List Piece

/-- The text of a word in which nothing is quoted or expanded. -/
def Word.bare? : Word → Option String
  | [.text value false] => some value
  | _ => none

inductive Direction where
  | input
  | output
  /-- What is in the target stays. -/
  | append
  /-- The target is the number of another channel. -/
  | same
  /-- The target is the input itself. -/
  | here
deriving DecidableEq, Repr

/-- Gives a channel of a command a new target. -/
structure Redirect where
  channel : Nat
  direction : Direction
  target : Word
deriving Repr

mutual

inductive Script where
  | nothing
  | simple (line : Nat) (assignments : List (String × Word)) (words : List Word)
      (redirects : List Redirect)
  | pipe (first second : Script)
  /-- The second is run if the first succeeds. -/
  | both (first second : Script)
  /-- The second is run if the first fails. -/
  | either (first second : Script)
  | sequence (first second : Script)
  | negated (body : Script)
  /-- Not waited for. -/
  | aside (body : Script)
  /-- Run in a part of the shell of its own, or in this one. -/
  | group (line : Nat) (alone : Bool) (body : Script) (redirects : List Redirect)
  | branch (condition yes no : Script)
  /-- Run as long as the condition succeeds, or as long as it fails. -/
  | loop (fails : Bool) (condition body : Script)
  /-- Run once for each field of the words. -/
  | each (line : Nat) (name : String) (words : List Word) (body : Script)
  /-- The first arm that fits the subject is run. -/
  | choose (line : Nat) (subject : Word) (arms : Arms)
  | define (name : String) (body : Script)

inductive Arms where
  | done
  | arm (patterns : List Word) (body : Script) (rest : Arms)

end

/-- Why text is no script. -/
inductive ScriptError where
  | unterminatedQuote
  /-- A script between back quotes does not end. -/
  | unfinishedScript
  /-- An expansion does not end. -/
  | missing (text : String)
  /-- A token that cannot stand there, and the one that should. -/
  | unexpected (token : String) (expected : Option String)
  | badLoopVariable
  | badFunctionName
deriving DecidableEq, Repr

def ScriptError.message : ScriptError → String
  | .unterminatedQuote => "Syntax error: Unterminated quoted string"
  | .unfinishedScript => "Syntax error: EOF in backquote substitution"
  | .missing text => "Syntax error: Missing '" ++ text ++ "'"
  | .unexpected token none => "Syntax error: " ++ token ++ " unexpected"
  | .unexpected token (some expected) =>
    "Syntax error: " ++ token ++ " unexpected (expecting \"" ++ expected ++ "\")"
  | .badLoopVariable => "Syntax error: Bad for loop variable"
  | .badFunctionName => "Syntax error: Bad function name"

/-- An error and the line in which it shows. -/
structure ScriptFault where
  line : Nat
  error : ScriptError
deriving DecidableEq, Repr

end SchemaTypes.Filter
