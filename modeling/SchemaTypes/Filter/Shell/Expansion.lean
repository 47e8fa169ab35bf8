import SchemaTypes.Filter.Arithmetic
import SchemaTypes.Filter.Pattern
import SchemaTypes.Filter.Shell

/-! What the words of a script stand for. -/
namespace SchemaTypes.Filter.Shell

/-- A part of an expanded word. -/
inductive Part where
  /-- What is quoted is no pattern. -/
  | text (value : String) (quoted : Bool)
  /-- Ends a field, if there is one. -/
  | gap
  /-- Ends a field, which may be empty. -/
  | cut
deriving DecidableEq, Repr

/-- The characters at which the values of parameters are split. -/
def separators (shell : Shell) : List Char := ((shell.find? "IFS").getD " \t\n").toList

def isBlank (c : Char) : Bool := c == ' ' || c == '\t' || c == '\n'

/-- Passes over blanks among the separators, and one separator of another kind between them. -/
def skipSeparator (separators : List Char) (cs : List Char) : Part × List Char :=
  let isGap (c : Char) : Bool := isBlank c && separators.contains c
  match cs.dropWhile isGap with
  | c :: rest =>
    if separators.contains c then (.cut, rest.dropWhile isGap) else (.gap, c :: rest)
  | [] => (.gap, [])

/-- Text split at separators. -/
def splitParts (separators : List Char) : Nat → List Char → List Part
  | 0, _ | _, [] => []
  | fuel + 1, cs =>
    let run := cs.takeWhile fun c => !separators.contains c
    let front : List Part := if run.isEmpty then [] else [.text (String.ofList run) false]
    match cs.drop run.length with
    | [] => front
    | rest =>
      let (part, rest) := skipSeparator separators rest
      front ++ part :: splitParts separators fuel rest

/-- The parts of a value, which is split unless it is `whole`. -/
def valueParts (shell : Shell) (whole : Bool) (value : String) : List Part :=
  if whole then [.text value true] else splitParts shell.separators (value.length + 1) value.toList

/-- Characters, each with whether it is quoted. -/
abbrev Marked := List (Char × Bool)

def mark (text : String) (quoted : Bool) : Marked := text.toList.map (·, quoted)

/-- The fields of a word. Neighbouring texts are one field. -/
def fieldsFrom (field : Option Marked) : List Part → List Marked
  | [] => field.toList
  | .gap :: rest => field.toList ++ fieldsFrom none rest
  | .cut :: rest => field.getD [] :: fieldsFrom none rest
  | .text value quoted :: rest => fieldsFrom (some (field.getD [] ++ mark value quoted)) rest

/-- The parts as one text. -/
def partsText (parts : List Part) : String :=
  "".intercalate (parts.map fun part =>
    match part with
    | .text value _ => value
    | _ => " ")

/-- All parameters as one text. -/
def joined (shell : Shell) : String :=
  (String.ofList (shell.separators.take 1)).intercalate shell.parameters

/-- The letters of the options that are on. -/
def optionLetters (shell : Shell) : String :=
  (if shell.demandsValues then "u" else "") ++ (if shell.traces then "x" else "")
    ++ (if shell.keepsPatterns then "f" else "") ++ if shell.isStrict then "e" else ""

/-- The value of a parameter that is set. -/
def value? (shell : Shell) (name : String) : Option String :=
  if name = "@" ∨ name = "*" then
    if shell.parameters.isEmpty then none else some shell.joined
  else if name = "#" then some (toString shell.parameters.length)
  else if name = "?" then some (toString shell.status)
  else if name = "$" then some (toString shell.process)
  else if name = "-" then some shell.optionLetters
  else if name = "!" then
    if shell.asides.isEmpty then none else some (toString (shell.process + shell.asides.length))
  else
    match name.toNat? with
    | some 0 => some shell.name
    | some (n + 1) => shell.parameters[n]?
    | none => shell.find? name

def parameterParts (shell : Shell) (name : String) (whole quoted : Bool) : List Part :=
  if name = "@" ∨ (name = "*" ∧ !quoted) then
    ((shell.parameters.map (shell.valueParts whole)).intersperse [.gap]).flatten
  else
    match shell.value? name with
    | some value => shell.valueParts whole value
    | none => if quoted then [.text "" true] else []

def withoutNewlines (text : String) : String :=
  String.ofList (text.toList.reverse.dropWhile (· == '\n')).reverse

/-- The output of a script that is run in a part of the shell. -/
def outputOf (world : World) (line : Nat) (script : String) : StateM Shell String := do
  let shell ← get
  if shell.isHalted then return ""
  let before := shell.status
  let sink := shell.sinks.size
  let shell := { shell with sinks := shell.sinks.push .empty }
  let shell : Shell := shell.isolated world (shell.channels.set 1 (some (.sink sink)))
    (world.text false line script)
  set { shell with status := before, outputStatus := shell.status }
  return withoutNewlines (Text.ofUtf8Replacing (shell.sinks[sink]?.getD .empty))

/-- Ends the shell with a complaint, unless it is already at its end. -/
def refuse (line : Nat) (text : String) : StateM Shell Unit :=
  modify fun shell => if shell.isHalted then shell else shell.abort line text

/-- Ends a shell that demands values if a parameter has none. -/
def demand (line : Nat) (name : String) : StateM Shell Unit := do
  let shell ← get
  if shell.demandsValues && name != "@" && name != "*" && (shell.value? name).isNone then
    refuse line (name ++ ": parameter not set")

/-- The value of an arithmetic expression. -/
def sumOf (line : Nat) (text : String) : StateM Shell String := do
  let shell ← get
  match do (← Sum.ofText text).evaluate shell.bindings with
  | .ok (value, bindings) =>
    match shell.fixed.find? fun name => Assoc.find? name bindings != shell.find? name with
    | some name => refuse line (name ++ ": is read only")
    | none => set { shell with bindings }
    return toString value
  | .error error =>
    refuse line (error.message text)
    return ""

def isQuotedPiece : Piece → Bool
  | .text _ quoted | .parameter _ quoted | .altered _ _ _ quoted | .output _ _ quoted
  | .sum _ quoted => quoted
  | .length _ | .malformed => true

/-! Paths. -/

/-- Whether characters are a pattern and not only a text. -/
def isPattern (marked : Marked) : Bool :=
  marked.any fun (c, quoted) => !quoted && (c == '*' || c == '?' || c == '[')

def unmark (marked : Marked) : String := String.ofList (marked.map (·.1))

/-- The names in a directory that a pattern fits. A dot in front must be written. -/
def namesIn (place : Place) (directory : String) (marked : Marked) : List String :=
  match place.disk.lookup place.directory (if directory = "" then "." else directory) with
  | .ok (found, .directory) =>
    let names := place.disk.entries.filterMap fun (entry, _) =>
      if entry.dropLast = found then entry.getLast? else none
    (names ++ [".", ".."]).filter fun name =>
      (!name.startsWith "." || (marked.head?.map (·.1)) == some '.')
        && (Pattern.ofMarked marked).fits name.toList
  | _ => []

/-- The paths that lead on from `front` through patterns, each for one part of them. -/
def pathsFrom (place : Place) (front : String) : List Marked → List String
  | [] => if (place.entry? front).isSome then [front] else []
  | part :: rest =>
    let names := if isPattern part then namesIn place front part else [unmark part]
    names.flatMap fun name =>
      pathsFrom place (front ++ name ++ if rest.isEmpty then "" else "/") rest

/-- The parts of a path that is marked. -/
def splitMarked (part : Marked) : Marked → List Marked
  | [] => [part]
  | (c, quoted) :: rest =>
    if c = '/' then part :: splitMarked [] rest else splitMarked (part ++ [(c, quoted)]) rest

/-- The paths that a pattern fits, in order. Without any the pattern is a text. -/
def paths (shell : Shell) (marked : Marked) : List String :=
  let found := if isPattern marked && !shell.keepsPatterns
    then pathsFrom shell.place "" (splitMarked [] marked) else []
  if found.isEmpty then [unmark marked] else found.mergeSort fun a b => a ≤ b

mutual

/-- The parts of a piece. With `split` what is not quoted is split. -/
def pieceParts (world : World) (line : Nat) (split : Bool) : Piece → StateM Shell (List Part)
  | .text value quoted => return [.text value quoted]
  | .parameter name quoted => do
    demand line name
    return (← get).parameterParts name (quoted || !split) (quoted || !split)
  | .length name => do
    demand line name
    return [.text (toString (((← get).value? name).getD "").utf8ByteSize) true]
  | .output start script quoted => do
    let text ← outputOf world (start.getD 1) script
    return (← get).valueParts (quoted || !split) text
  | .sum expression quoted => do
    let text := partsText (← wordParts world line false expression)
    let value ← sumOf line text
    return (← get).valueParts (quoted || !split) value
  | .malformed => do
    refuse line "Bad substitution"
    return []
  | .altered name alteration operand quoted => do
    let whole := quoted || !split
    let shell ← get
    let value? := shell.value? name
    let set? (orEmpty : Bool) : Bool := value?.any fun value => !orEmpty || value != ""
    let own := shell.parameterParts name whole whole
    match alteration with
    | .substitute orEmpty =>
      if set? orEmpty then return own else operandParts world line split operand
    | .assign orEmpty =>
      if set? orEmpty then return own
      else
        let text := partsText (← wordParts world line false operand)
        modify (·.assign line name (some text))
        return (← get).valueParts whole text
    | .demand orEmpty =>
      if set? orEmpty then return own
      else
        let text := partsText (← wordParts world line false operand)
        let standard := if orEmpty then "parameter not set or null" else "parameter not set"
        refuse line (name ++ ": " ++ if text = "" then standard else text)
        return []
    | .alternative orEmpty =>
      if set? orEmpty then operandParts world line split operand
      else return if quoted then [.text "" true] else []
    | .cutFront longest =>
      demand line name
      let pattern := Pattern.ofMarked (← wordMarks world line operand)
      let cs := pattern.cutFront longest (value?.getD "").toList
      return (← get).valueParts whole (String.ofList cs)
    | .cutBack longest =>
      demand line name
      let pattern := Pattern.ofMarked (← wordMarks world line operand)
      let cs := pattern.cutBack longest (value?.getD "").toList
      return (← get).valueParts whole (String.ofList cs)

def wordParts (world : World) (line : Nat) (split : Bool) : List Piece → StateM Shell (List Part)
  | [] => return []
  | piece :: rest => do
    let parts ← pieceParts world line split piece
    return parts ++ (← wordParts world line split rest)

/-- The parts of an operand, in which text that is not quoted is split as well. -/
def operandParts (world : World) (line : Nat) (split : Bool) :
    List Piece → StateM Shell (List Part)
  | [] => return []
  | piece :: rest => do
    let parts ← match piece with
      | .text value quoted => do pure ((← get).valueParts (quoted || !split) value)
      | piece => pieceParts world line split piece
    return parts ++ (← operandParts world line split rest)

/-- The characters of a word, each with whether it is quoted. -/
def wordMarks (world : World) (line : Nat) : List Piece → StateM Shell Marked
  | [] => return []
  | piece :: rest => do
    let text := partsText (← pieceParts world line false piece)
    return mark text (isQuotedPiece piece) ++ (← wordMarks world line rest)

end

/-- The fields of a word; one that is a pattern becomes the paths that it fits. -/
def wordFields (world : World) (line : Nat) (word : Word) : StateM Shell (List String) := do
  let parts ← wordParts world line true word
  return (fieldsFrom none parts).flatMap (← get).paths

def fields (world : World) (line : Nat) : List Word → StateM Shell (List String)
  | [] => return []
  | word :: rest => do
    let own ← wordFields world line word
    return own ++ (← fields world line rest)

/-- The text of a word that is not split. -/
def wordText (world : World) (line : Nat) (word : Word) : StateM Shell String := do
  return partsText (← wordParts world line false word)

/-- Assigns values from left to right, and gives them back. -/
def assignAll (world : World) (line : Nat) : List (String × Word) →
    StateM Shell (List (String × String))
  | [] => return []
  | (name, word) :: rest => do
    let value ← wordText world line word
    modify (·.assign line name (some value))
    return (name, value) :: (← assignAll world line rest)

end SchemaTypes.Filter.Shell
