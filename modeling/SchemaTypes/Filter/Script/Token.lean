import SchemaTypes.Filter.Script

/-! The tokens of scripts. -/
namespace SchemaTypes.Filter.Script

/-- A token, and the line in which it ends. -/
inductive Token where
  | word (line : Nat) (word : Word)
  | sign (line : Nat) (text : String)
  /-- The target is the word behind it. -/
  | redirect (line : Nat) (channel : Nat) (direction : Direction)
  /-- The text behind this place cannot be read. -/
  | fault (line : Nat) (error : ScriptError)
  | finish (line : Nat)
deriving Repr

def isSpecialName (c : Char) : Bool := "@*#?$!-".toList.contains c

/-- Characters that end a word that is not quoted. -/
def endsWord (c : Char) : Bool := " \t\n;&|()<>".toList.contains c

/-- An input that is to follow in the next lines. -/
structure Pending where
  /-- Whether tabs in front of its lines go. -/
  strips : Bool
  /-- The line behind it. -/
  delimiter : String
  /-- Whether nothing in it is expanded. -/
  quoted : Bool

/-- The lines up to a delimiter, and the text behind it. -/
def hereLines (pending : Pending) : Nat → List Char → List Char × List Char
  | 0, cs => ([], cs)
  | _, [] => ([], [])
  | fuel + 1, cs =>
    let line := cs.takeWhile (· != '\n')
    let rest := cs.drop (line.length + 1)
    let ends := if line.length < cs.length then ['\n'] else []
    let line := if pending.strips then line.dropWhile (· == '\t') else line
    if line == pending.delimiter.toList then ([], rest)
    else
      let (more, rest) := hereLines pending fuel rest
      (line ++ ends ++ more, rest)

/-! The end of a script between parentheses. -/

/-- What is open inside a script. -/
inductive Frame where
  | group
  /-- A subject is to come, and then `in`. -/
  | choice
  /-- A pattern, which a parenthesis ends. -/
  | pattern
  /-- The commands of an arm. -/
  | arm
deriving DecidableEq, Repr

/-- Where the reading of a script is: what is open, whether a command is to begin, the word so far,
from its end, and the inputs that are to follow. -/
structure Reach where
  frames : List Frame := []
  starts : Bool := true
  word : List Char := []
  pending : List Pending := []

namespace Reach

/-- Words behind which a command begins. -/
def openers : List String :=
  ["if", "then", "elif", "else", "while", "until", "do", "!", "\x7b"]

/-- Ends the word. -/
def endWord (reach : Reach) : Reach :=
  let word := String.ofList reach.word.reverse
  let next : Reach := { reach with word := [], starts := false }
  if reach.word.isEmpty then reach
  else
    match reach.frames with
    | .choice :: frames => if word = "in" then { next with frames := .pattern :: frames } else next
    | .pattern :: frames => if word = "esac" then { next with frames } else next
    | frames =>
      if !reach.starts then next
      else if word = "case" then { next with frames := .choice :: frames }
      else if word = "esac" then { next with frames := frames.drop 1 }
      else { next with starts := openers.contains word }

/-- Goes on behind a sign, which ends a word and often a command. -/
def sign (reach : Reach) (c : Char) : Reach :=
  let next := reach.endWord
  if c = ' ' ∨ c = '\t' ∨ c = '<' ∨ c = '>' then next else { next with starts := true }

/-- Reads the line behind an input that is to follow, which stands in front of the text. -/
def expectInput (reach : Reach) (cs : List Char) : Reach × List Char :=
  let strips := cs.head? == some '-'
  let cs := (if strips then cs.tail else cs).dropWhile fun c => c == ' ' || c == '\t'
  let word := cs.takeWhile fun c => !endsWord c
  let isQuote (c : Char) : Bool := c == '\'' || c == '"' || c == '\\'
  ({ reach with pending := reach.pending ++
      [⟨strips, String.ofList (word.filter (!isQuote ·)), word.any isQuote⟩] },
    cs.drop word.length)

/-- The text behind the inputs that follow. -/
def behindInputs (reach : Reach) (cs : List Char) : List Char :=
  reach.pending.foldl (fun cs pending => (hereLines pending (cs.length + 1) cs).2) cs

end Reach

/-- The text behind a quote that is closed by `q`, which has no meaning behind a backslash. -/
def behindQuote (q : Char) : List Char → Option (List Char)
  | [] => none
  | '\\' :: _ :: rest => behindQuote q rest
  | c :: rest => if c = q then some rest else behindQuote q rest

/-- The text behind the parenthesis that closes an open one. -/
def closing (reach : Reach) (inQuotes : Bool) : Nat → List Char → Except ScriptError (List Char)
  | 0, _ | _, [] =>
    .error (if inQuotes then .unterminatedQuote else .unexpected "end of file" (some ")"))
  | fuel + 1, c :: cs => do
    let inWord : Reach := { reach with word := c :: reach.word }
    if c = '\\' then closing inWord inQuotes fuel (cs.drop 1)
    else if c = '$' ∧ cs.head? = some '(' then
      closing inWord inQuotes fuel (← closing {} false fuel cs.tail)
    else if c = '\x60' then
      match behindQuote c cs with
      | some rest => closing inWord inQuotes fuel rest
      | none => throw .unfinishedScript
    else if c = '"' then closing inWord (!inQuotes) fuel cs
    else if inQuotes then closing inWord inQuotes fuel cs
    else if c = '\'' then
      match cs.dropWhile (· != '\'') with
      | [] => throw .unterminatedQuote
      | _ :: rest => closing inWord false fuel rest
    else if c = '#' ∧ reach.word.isEmpty then closing reach false fuel (cs.dropWhile (· != '\n'))
    else if !endsWord c then closing inWord false fuel cs
    else
      let next := reach.sign c
      if c = '\n' then closing { next with pending := [] } false fuel (next.behindInputs cs)
      else if c = '<' ∧ cs.head? = some '<' then
        let (next, rest) := next.expectInput cs.tail
        closing next false fuel rest
      else
        match c, next.frames with
        | '(', .pattern :: _ => closing next false fuel cs
        | '(', frames => closing { next with frames := .group :: frames } false fuel cs
        | ')', [] => return cs
        | ')', .pattern :: frames => closing { next with frames := .arm :: frames } false fuel cs
        | ')', .group :: frames => closing { next with frames, starts := false } false fuel cs
        | ';', .arm :: frames =>
          if cs.head? = some ';' then
            closing { next with frames := .pattern :: frames } false fuel cs.tail
          else closing next false fuel cs
        | _, _ => closing next false fuel cs

/-- Where pieces stand, which decides how they are written and where they end. -/
inductive Mode where
  | bare
  /-- Between double quotes. -/
  | quoted
  /-- In an input that stands in the script. -/
  | here
  /-- In front of a closing brace. -/
  | operand (inQuotes : Bool)
  /-- In front of two closing parentheses, with others open. -/
  | sum (depth : Nat)

namespace Mode

def isQuoted : Mode → Bool
  | .bare => false
  | .operand inQuotes => inQuotes
  | _ => true

def allowsSingleQuotes : Mode → Bool
  | .bare | .operand false => true
  | _ => false

def allowsDoubleQuotes : Mode → Bool
  | .bare | .operand _ => true
  | _ => false

/-- The text behind the end of the pieces, if that is in front. -/
def end? (mode : Mode) (cs : List Char) : Option (List Char) :=
  match mode, cs with
  | .bare, c :: _ => if endsWord c then some cs else none
  | .bare, [] | .here, [] => some []
  | .quoted, '"' :: rest => some rest
  | .operand _, '\x7d' :: rest => some rest
  | .sum 0, ')' :: ')' :: rest => some rest
  | _, _ => none

/-- What is wrong if the text ends before the pieces do. -/
def unfinished : Mode → ScriptError
  | .operand _ => .missing "\x7d"
  | .sum _ => .missing "))"
  | _ => .unterminatedQuote

/-- The mode behind a character of text. -/
def after (mode : Mode) (c : Char) : Mode :=
  match mode with
  | .sum depth =>
    if c = '(' then .sum (depth + 1) else if c = ')' then .sum (depth - 1) else .sum depth
  | mode => mode

/-- What a backslash and the character behind it stand for. -/
def escape (mode : Mode) (c : Char) : String :=
  let isEscape := match mode with
    | .bare | .operand false => true
    | .operand true => "$\x60\"\\\x7d".toList.contains c
    | .here | .sum _ => "$\x60\\".toList.contains c
    | _ => "$\x60\"\\".toList.contains c
  if isEscape then c.toString else "\\" ++ c.toString

end Mode

/-- Puts text in front of a word; text of one kind is one piece. -/
def cons (value : String) (quoted : Bool) : Word → Word
  | .text next other :: rest =>
    if quoted = other then .text (value ++ next) quoted :: rest
    else .text value quoted :: .text next other :: rest
  | word => .text value quoted :: word

/-- The name of a parameter in front of the text, empty if there is none. -/
def parameterName (cs : List Char) : List Char :=
  match cs with
  | [] => []
  | c :: _ =>
    if isSpecialName c then [c]
    else if c.isDigit then cs.takeWhile Char.isDigit
    else if isNameStart c then cs.takeWhile isNameChar
    else []

/-- The alteration in front of the text. -/
def alteration? (cs : List Char) : Option (Alteration × List Char) :=
  let simple? (orEmpty : Bool) : List Char → Option (Alteration × List Char)
    | '-' :: rest => some (.substitute orEmpty, rest)
    | '=' :: rest => some (.assign orEmpty, rest)
    | '?' :: rest => some (.demand orEmpty, rest)
    | '+' :: rest => some (.alternative orEmpty, rest)
    | _ => none
  match cs with
  | ':' :: rest => simple? true rest
  | '#' :: '#' :: rest => some (.cutFront true, rest)
  | '#' :: rest => some (.cutFront false, rest)
  | '%' :: '%' :: rest => some (.cutBack true, rest)
  | '%' :: rest => some (.cutBack false, rest)
  | cs => simple? false cs

/-- A script between back quotes; a backslash in front of some characters goes. -/
def backquoted (cs : List Char) : Option (List Char × List Char) :=
  match cs with
  | [] => none
  | '\x60' :: rest => some ([], rest)
  | '\\' :: c :: rest =>
    let text := if c = '\x60' ∨ c = '\\' ∨ c = '$' then [c] else ['\\', c]
    (backquoted rest).map fun (inner, rest) => (text ++ inner, rest)
  | c :: rest => (backquoted rest).map fun (inner, rest) => (c :: inner, rest)

/-! In what follows `last` is the line in which the text ends. -/

mutual

/-- What stands behind a dollar sign. -/
def dollar (last : Nat) (quoted : Bool) : Nat → List Char → Except ScriptError (Piece × List Char)
  | 0, cs => .ok (.text "$" quoted, cs)
  | fuel + 1, cs =>
    match cs with
    | '(' :: '(' :: rest => do
      let (expression, rest) ← pieces last (.sum 0) fuel rest
      return (.sum expression quoted, rest)
    | '(' :: rest => do
      let after ← closing {} false (rest.length + 1) rest
      let inner := rest.take (rest.length - after.length - 1)
      return (.output (some (last - rest.count '\n')) (String.ofList inner) quoted, after)
    | '\x7b' :: rest => braces last quoted fuel rest
    | cs =>
      let name := parameterName cs
      let name := if name.head?.any Char.isDigit then name.take 1 else name
      if name.isEmpty then .ok (.text "$" quoted, cs)
      else .ok (.parameter (String.ofList name) quoted, cs.drop name.length)

/-- What stands between braces behind a dollar sign. -/
def braces (last : Nat) (quoted : Bool) : Nat → List Char → Except ScriptError (Piece × List Char)
  | 0, cs => .ok (.malformed, cs)
  | fuel + 1, cs => do
    let malformed : Except ScriptError (Piece × List Char) :=
      match cs.dropWhile (· != '\x7d') with
      | [] => .error (.missing "\x7d")
      | _ :: rest => .ok (.malformed, rest)
    let measured := match cs with
      | '#' :: rest => parameterName rest
      | _ => []
    match measured, cs.drop (measured.length + 1) with
    | _ :: _, '\x7d' :: rest => return (.length (String.ofList measured), rest)
    | _, _ =>
      let name := parameterName cs
      match name, cs.drop name.length with
      | [], _ => malformed
      | _, '\x7d' :: rest => return (.parameter (String.ofList name) quoted, rest)
      | _, rest =>
        match alteration? rest with
        | none => malformed
        | some (alteration, rest) =>
          let (operand, rest) ← pieces last (.operand (quoted && !alteration.cuts)) fuel rest
          return (.altered (String.ofList name) alteration operand quoted, rest)

/-- The pieces up to their end, and the text behind it. -/
def pieces (last : Nat) (mode : Mode) : Nat → List Char → Except ScriptError (Word × List Char)
  | 0, cs => .ok ([], cs)
  | fuel + 1, cs => do
    match mode.end? cs with
    | some rest => return ([], rest)
    | none =>
      match cs with
      | [] => throw mode.unfinished
      | '\\' :: '\n' :: rest => pieces last mode fuel rest
      | '\\' :: c :: rest =>
        let (more, rest) ← pieces last mode fuel rest
        return (cons (mode.escape c) true more, rest)
      | '$' :: rest =>
        let (piece, rest) ← dollar last mode.isQuoted fuel rest
        let (more, rest) ← pieces last mode fuel rest
        return (piece :: more, rest)
      | '\x60' :: rest =>
        match backquoted rest with
        | none => throw .unfinishedScript
        | some (inner, rest) =>
          let (more, rest) ← pieces last mode fuel rest
          return (.output none (String.ofList inner) mode.isQuoted :: more, rest)
      | c :: rest =>
        if c = '\'' ∧ mode.allowsSingleQuotes then
          match rest.dropWhile (· != '\'') with
          | [] => throw .unterminatedQuote
          | _ :: after =>
            let (more, after) ← pieces last mode fuel after
            return (cons (String.ofList (rest.takeWhile (· != '\''))) true more, after)
        else if c = '"' ∧ mode.allowsDoubleQuotes then
          let (inner, rest) ← pieces last .quoted fuel rest
          let (more, rest) ← pieces last mode fuel rest
          return (if inner.isEmpty then cons "" true more else inner ++ more, rest)
        else
          let (more, rest) ← pieces last (mode.after c) fuel rest
          return (cons c.toString mode.isQuoted more, rest)

end

/-- The sign in front of the text. -/
def sign? : List Char → Option (String × List Char)
  | '&' :: '&' :: rest => some ("&&", rest)
  | '|' :: '|' :: rest => some ("||", rest)
  | ';' :: ';' :: rest => some (";;", rest)
  | c :: rest => if ";&|()".toList.contains c then some (c.toString, rest) else none
  | [] => none

/-- A redirection in front of the text, for a channel that is given or not. -/
def redirect? (channel : Option Nat) : List Char → Option (Nat × Direction × List Char)
  | '>' :: '&' :: rest => some (channel.getD 1, .same, rest)
  | '>' :: '>' :: rest => some (channel.getD 1, .append, rest)
  | '>' :: '|' :: rest | '>' :: rest => some (channel.getD 1, .output, rest)
  | '<' :: '<' :: rest => some (channel.getD 0, .here, rest)
  | '<' :: '&' :: rest => some (channel.getD 0, .same, rest)
  | '<' :: '>' :: rest | '<' :: rest => some (channel.getD 0, .input, rest)
  | _ => none

/-- A redirection, with or without the digit of its channel. -/
def redirection? : List Char → Option (Nat × Direction × List Char)
  | c :: rest =>
    if c.isDigit then redirect? (some (c.toNat - '0'.toNat)) rest else redirect? none (c :: rest)
  | [] => none

/-- The text of a word as it is written. -/
def plainText (word : Word) : String :=
  "".intercalate (word.map fun piece =>
    match piece with
    | .text value _ => value
    | .parameter name _ => "$" ++ name
    | _ => "")

/-- The inputs that follow, one behind the other, and the text behind them. -/
def hereBodies (last : Nat) :
    List Pending → List Char → Except ScriptError (List Word × List Char)
  | [], cs => .ok ([], cs)
  | pending :: rest, cs => do
    let (text, after) := hereLines pending (cs.length + 1) cs
    let body ← if pending.quoted then pure [.text (String.ofList text) true]
      else
        let behind := last - cs.count '\n' + text.count '\n'
        do pure (← pieces behind .here (2 * text.length + 2) text).1
    let (more, after) ← hereBodies last rest after
    return (body :: more, after)

/-- The tokens of a script, and the inputs that stand in it. -/
def scan (last : Nat) : Nat → Nat → List Pending → List Char → List Token × List Word
  | 0, line, _, _ | _, line, _, [] => ([.finish line], [])
  | fuel + 1, line, pending, c :: cs =>
    let push (token : Token) (after : List Token × List Word) : List Token × List Word :=
      (token :: after.1, after.2)
    let fault (error : ScriptError) : List Token × List Word :=
      ([.fault last error], [])
    if c = '\n' then
      match hereBodies last pending cs with
      | .error error => fault error
      | .ok (bodies, rest) =>
        let next := line + 1 + (cs.take (cs.length - rest.length)).count '\n'
        let (tokens, more) := scan last fuel next [] rest
        (.sign (line + 1) "\n" :: tokens, bodies ++ more)
    else if c = ' ' ∨ c = '\t' then scan last fuel line pending cs
    else if c = '#' then scan last fuel line pending (cs.dropWhile (· != '\n'))
    else if c = '\\' ∧ cs.head? = some '\n' then scan last fuel (line + 1) pending cs.tail
    else
      match redirection? (c :: cs) with
      | some (channel, .here, rest) =>
        let strips := rest.head? == some '-'
        let rest := (if strips then rest.tail else rest).dropWhile fun c => c == ' ' || c == '\t'
        match pieces last .bare (2 * rest.length + 2) rest with
        | .error error => fault error
        | .ok ([], rest) => push (.redirect line channel .here) (scan last fuel line pending rest)
        | .ok (word, rest) =>
          let quoted := word.any fun piece => match piece with
            | .text _ quoted => quoted
            | _ => false
          let (tokens, bodies) :=
            scan last fuel line (pending ++ [⟨strips, plainText word, quoted⟩]) rest
          (.redirect line channel .here :: .word line [] :: tokens, bodies)
      | some (channel, direction, rest) =>
        push (.redirect line channel direction) (scan last fuel line pending rest)
      | none =>
        match sign? (c :: cs) with
        | some (text, rest) => push (.sign line text) (scan last fuel line pending rest)
        | none =>
          match pieces last .bare (2 * cs.length + 4) (c :: cs) with
          | .error error => fault error
          | .ok (word, rest) =>
            let taken := (c :: cs).take (cs.length + 1 - rest.length)
            let line := line + taken.count '\n'
            push (.word line word) (scan last fuel line pending rest)

/-- Puts the inputs that stand in a script behind their redirections. -/
def placeBodies : List Token → List Word → List Token
  | .redirect line channel .here :: .word _ _ :: rest, bodies =>
    .redirect line channel .here :: .word line (bodies.headD []) :: placeBodies rest bodies.tail
  | token :: rest, bodies => token :: placeBodies rest bodies
  | [], _ => []

/-- The tokens of a text that begins in a line. -/
def tokens (line : Nat) (text : String) : List Token :=
  let cs := text.toList
  let (tokens, bodies) := scan (line + cs.count '\n') (cs.length + 1) line [] cs
  placeBodies tokens bodies

end SchemaTypes.Filter.Script
