import SchemaTypes.Filter.Script.Token

/-! Commands from the tokens of a script. -/
namespace SchemaTypes.Filter.Script

/-- Words that do not start a simple command. -/
def reserved : List String :=
  ["!", "\x7b", "\x7d", "if", "then", "elif", "else", "fi", "for", "do", "done", "while", "until",
    "case", "esac"]

/-- Reserved words that end a list of commands. -/
def closers : List String := ["\x7d", "then", "elif", "else", "fi", "do", "done", "esac"]

/-- Commands of the shell that no function may be named after. -/
def specialNames : List String :=
  [".", ":", "break", "continue", "eval", "exec", "exit", "export", "local", "readonly", "return",
    "set", "shift", "times", "trap", "unset"]

namespace Token

def line : Token → Nat
  | .word line _ | .sign line _ | .redirect line _ _ | .fault line _ | .finish line => line

def bare? : Token → Option String
  | .word _ w => Word.bare? w
  | _ => none

def isSign (text : String) : Token → Bool
  | .sign _ other => other == text
  | _ => false

def isFinish : Token → Bool
  | .finish _ => true
  | _ => false

def isSeparator (token : Token) : Bool := token.isSign ";" || token.isSign "&" || token.isSign "\n"

/-- How a token is named where it is not expected. -/
def label : Token → String
  | .word _ w => match Word.bare? w with
    | some text => if reserved.contains text then "\"" ++ text ++ "\"" else "word"
    | none => "word"
  | .sign _ "\n" => "newline"
  | .sign _ text => "\"" ++ text ++ "\""
  | .redirect _ _ _ => "redirection"
  | .fault _ _ | .finish _ => "end of file"

/-- Whether a list of commands is over in front of a token. -/
def endsList (token : Token) : Bool :=
  match token with
  | .finish _ => true
  | .sign _ text => text == ")" || text == ";;"
  | token => token.bare?.any closers.contains

end Token

abbrev Reading := Except ScriptFault

def bareHead? (ts : List Token) : Option String := ts.head?.bind Token.bare?

def headIsSign (text : String) (ts : List Token) : Bool := ts.head?.any (Token.isSign text)

def lineOf (ts : List Token) : Nat := (ts.head?.map Token.line).getD 1

/-- The error of a token that cannot stand where it does. -/
def unexpected {α : Type} (ts : List Token) (expected : Option String) : Reading α :=
  match ts with
  | .fault line error :: _ => .error ⟨line, error⟩
  | token :: _ => .error ⟨token.line, .unexpected token.label expected⟩
  | [] => .error ⟨1, .unexpected "end of file" expected⟩

def skipNewlines (ts : List Token) : List Token := ts.dropWhile (Token.isSign "\n")

/-- Goes on behind a reserved word. -/
def expect (text : String) (ts : List Token) : Reading (List Token) :=
  let ts := skipNewlines ts
  if bareHead? ts == some text then .ok ts.tail else unexpected ts (some text)

def expectSign (text : String) (ts : List Token) : Reading (List Token) :=
  if headIsSign text ts then .ok ts.tail else unexpected ts (some text)

/-- The assignment in a word, if it is one. -/
def assignment? : Word → Option (String × Word)
  | .text value false :: rest =>
    let cs := value.toList
    let name := cs.takeWhile isNameChar
    match name, cs.drop name.length with
    | c :: _, '=' :: value =>
      if isNameStart c then
        some (String.ofList name,
          if value.isEmpty then rest else .text (String.ofList value) false :: rest)
      else none
    | _, _ => none
  | _ => none

def redirects : List Token → Reading (List Redirect × List Token)
  | .redirect _ channel direction :: .word _ target :: rest => do
    let (more, rest) ← redirects rest
    return (⟨channel, direction, target⟩ :: more, rest)
  | .redirect _ _ _ :: rest => unexpected rest none
  | ts => .ok ([], ts)

/-- The words and redirections of a simple command. -/
def simpleParts : List Token → Reading ((List Word × List Redirect) × List Token)
  | .redirect _ channel direction :: .word _ target :: rest => do
    let ((words, redirects), rest) ← simpleParts rest
    return ((words, ⟨channel, direction, target⟩ :: redirects), rest)
  | .redirect _ _ _ :: rest => unexpected rest none
  | .word _ w :: rest => do
    let ((words, redirects), rest) ← simpleParts rest
    return ((w :: words, redirects), rest)
  | ts => .ok (([], []), ts)

/-- Takes the assignments in front of the words of a command. -/
def splitAssignments : List Word → List (String × Word) × List Word
  | [] => ([], [])
  | word :: rest =>
    match assignment? word with
    | some assignment =>
      let (assignments, words) := splitAssignments rest
      (assignment :: assignments, words)
    | none => ([], word :: rest)

def simpleCommand (ts : List Token) : Reading (Script × List Token) := do
  let ((words, redirects), rest) ← simpleParts ts
  if words.isEmpty && redirects.isEmpty then unexpected rest none
  else
    let (assignments, words) := splitAssignments words
    return (.simple (lineOf ts) assignments words redirects, rest)

/-- The words in front of other tokens. -/
def leadingWords : List Token → List Word × List Token
  | .word _ w :: rest =>
    let (words, rest) := leadingWords rest
    (w :: words, rest)
  | ts => ([], ts)

/-- The patterns of an arm, up to their parenthesis. -/
def patterns : List Token → Reading (List Word × List Token)
  | .word _ w :: .sign _ "|" :: rest => do
    let (more, rest) ← patterns rest
    return (w :: more, rest)
  | .word _ w :: rest => do return ([w], ← expectSign ")" rest)
  | ts => unexpected ts none

/-- Joins a command to those behind it. -/
def join (first second : Script) : Script :=
  match second with
  | .nothing => first
  | second => .sequence first second

mutual

/-- Commands one after the other, up to a token that ends them. -/
def list : Nat → List Token → Reading (Script × List Token)
  | 0, ts => unexpected ts none
  | fuel + 1, ts => do
    let ts := skipNewlines ts
    if ts.head?.any Token.isFinish then return (.nothing, ts)
    let (first, rest) ← chain fuel ts
    listFrom fuel first rest

/-- Goes on behind a command of a list. -/
def listFrom : Nat → Script → List Token → Reading (Script × List Token)
  | 0, _, ts => unexpected ts none
  | fuel + 1, first, ts => do
    match ts with
    | token :: rest =>
      if !token.isSeparator then return (first, ts)
      let first := if token.isSign "&" then .aside first else first
      let rest := skipNewlines rest
      if rest.head?.all Token.endsList then return (first, rest)
      let (second, rest) ← list fuel rest
      return (.sequence first second, rest)
    | [] => return (first, [])

/-- Pipelines joined by `&&` and `||`, from left to right. -/
def chain : Nat → List Token → Reading (Script × List Token)
  | 0, ts => unexpected ts none
  | fuel + 1, ts => do
    let (first, rest) ← pipeline fuel ts
    chainFrom fuel first rest

def chainFrom : Nat → Script → List Token → Reading (Script × List Token)
  | 0, _, ts => unexpected ts none
  | fuel + 1, first, ts =>
    match ts with
    | .sign _ "&&" :: rest => do
      let (second, rest) ← pipeline fuel (skipNewlines rest)
      chainFrom fuel (.both first second) rest
    | .sign _ "||" :: rest => do
      let (second, rest) ← pipeline fuel (skipNewlines rest)
      chainFrom fuel (.either first second) rest
    | ts => .ok (first, ts)

def pipeline : Nat → List Token → Reading (Script × List Token)
  | 0, ts => unexpected ts none
  | fuel + 1, ts => do
    if bareHead? ts == some "!" then
      let (body, rest) ← pipes fuel ts.tail
      return (.negated body, rest)
    else pipes fuel ts

def pipes : Nat → List Token → Reading (Script × List Token)
  | 0, ts => unexpected ts none
  | fuel + 1, ts => do
    let (first, rest) ← command fuel ts
    match rest with
    | .sign _ "|" :: rest =>
      let (second, rest) ← pipes fuel (skipNewlines rest)
      return (.pipe first second, rest)
    | rest => return (first, rest)

def command : Nat → List Token → Reading (Script × List Token)
  | 0, ts => unexpected ts none
  | fuel + 1, ts => do
    match ts with
    | .word _ w :: .sign _ "(" :: rest =>
      if (Word.bare? w).any reserved.contains || (assignment? w).isSome then compound fuel ts
      else
        let rest ← expectSign ")" rest
        match (Word.bare? w).filter fun name => isName name && !specialNames.contains name with
        | some name =>
          let (body, rest) ← command fuel (skipNewlines rest)
          return (.define name body, rest)
        | none => throw ⟨lineOf rest, .badFunctionName⟩
    | ts => compound fuel ts

/-- A command made of others, with its redirections, or a simple one. -/
def compound : Nat → List Token → Reading (Script × List Token)
  | 0, ts => unexpected ts none
  | fuel + 1, ts => do
    let whole (alone : Bool) (body : Script) (rest : List Token) :
        Reading (Script × List Token) := do
      let (redirects, rest) ← redirects rest
      return (.group (lineOf ts) alone body redirects, rest)
    if headIsSign "(" ts then
      let (body, rest) ← list fuel ts.tail
      whole true body (← expectSign ")" rest)
    else
      match bareHead? ts with
      | some "\x7b" =>
        let (body, rest) ← list fuel ts.tail
        whole false body (← expect "\x7d" rest)
      | some "if" =>
        let (body, rest) ← branches fuel ts.tail
        whole false body rest
      | some "while" =>
        let (body, rest) ← conditionLoop false fuel ts.tail
        whole false body rest
      | some "until" =>
        let (body, rest) ← conditionLoop true fuel ts.tail
        whole false body rest
      | some "for" =>
        let (body, rest) ← wordLoop fuel ts.tail
        whole false body rest
      | some "case" =>
        let (body, rest) ← choice fuel ts.tail
        whole false body rest
      | some text => if reserved.contains text then unexpected ts none else simpleCommand ts
      | none => simpleCommand ts

/-- What follows `if` or `elif`. -/
def branches : Nat → List Token → Reading (Script × List Token)
  | 0, ts => unexpected ts none
  | fuel + 1, ts => do
    let (condition, rest) ← list fuel ts
    let (yes, rest) ← list fuel (← expect "then" rest)
    match bareHead? rest with
    | some "elif" =>
      let (no, rest) ← branches fuel rest.tail
      return (.branch condition yes no, rest)
    | some "else" =>
      let (no, rest) ← list fuel rest.tail
      return (.branch condition yes no, ← expect "fi" rest)
    | _ => return (.branch condition yes .nothing, ← expect "fi" rest)

/-- What follows `while` or `until`. -/
def conditionLoop (fails : Bool) : Nat → List Token → Reading (Script × List Token)
  | 0, ts => unexpected ts none
  | fuel + 1, ts => do
    let (condition, rest) ← list fuel ts
    let (body, rest) ← list fuel (← expect "do" rest)
    return (.loop fails condition body, ← expect "done" rest)

/-- What follows `for`. Without words the loop runs over the parameters. -/
def wordLoop : Nat → List Token → Reading (Script × List Token)
  | 0, ts => unexpected ts none
  | fuel + 1, ts => do
    let some name := (bareHead? ts).filter isName | throw ⟨lineOf ts, .badLoopVariable⟩
    let rest := skipNewlines ts.tail
    let (words, rest) ←
      if bareHead? rest == some "in" then
        let (words, rest) := leadingWords rest.tail
        if headIsSign ";" rest || headIsSign "\n" rest then pure (words, rest.tail)
        else unexpected rest none
      else pure ([[.parameter "@" true]], if headIsSign ";" rest then rest.tail else rest)
    let (body, rest) ← list fuel (← expect "do" rest)
    return (.each (lineOf ts) name words body, ← expect "done" rest)

/-- What follows `case`. -/
def choice : Nat → List Token → Reading (Script × List Token)
  | 0, ts => unexpected ts none
  | fuel + 1, ts => do
    match ts with
    | .word line subject :: rest =>
      let (arms, rest) ← arms fuel (← expect "in" rest)
      return (.choose line subject arms, rest)
    | ts => unexpected ts none

def arms : Nat → List Token → Reading (Arms × List Token)
  | 0, ts => unexpected ts none
  | fuel + 1, ts => do
    let ts := skipNewlines ts
    if bareHead? ts == some "esac" then return (.done, ts.tail)
    let (words, rest) ← patterns (if headIsSign "(" ts then ts.tail else ts)
    let rest := skipNewlines rest
    let (body, rest) ← if rest.head?.any Token.endsList then pure (.nothing, rest)
      else list fuel rest
    let rest := skipNewlines rest
    if bareHead? rest == some "esac" then return (.arm words body .done, rest.tail)
    let rest ← expectSign ";;" rest
    let (more, rest) ← arms fuel rest
    return (.arm words body more, rest)

end

/-- The commands of one line, up to its end. -/
def lineFrom (fuel : Nat) : Nat → List Token → Reading (Script × List Token)
  | 0, ts => unexpected ts none
  | count + 1, ts => do
    let (first, rest) ← chain fuel ts
    let first := if headIsSign "&" rest then .aside first else first
    match rest with
    | .finish _ :: _ | .sign _ "\n" :: _ => return (first, rest)
    | .sign _ ";" :: rest | .sign _ "&" :: rest =>
      match rest with
      | .finish _ :: _ | .sign _ "\n" :: _ => return (first, rest)
      | rest =>
        let (second, rest) ← lineFrom fuel count rest
        return (join first second, rest)
    | rest => unexpected rest none

/-! Scripts inside words. -/

mutual

/-- The scripts whose output stands in a piece, with the lines in which they begin. -/
def scriptsInPiece : Piece → List (Option Nat × String)
  | .output line script _ => [(line, script)]
  | .altered _ _ operand _ => scriptsIn operand
  | .sum expression _ => scriptsIn expression
  | _ => []

def scriptsIn : List Piece → List (Option Nat × String)
  | [] => []
  | piece :: rest => scriptsInPiece piece ++ scriptsIn rest

end

/-- What is wrong with the scripts inside some tokens. One between parentheses must end there;
between back quotes what follows a list is passed over. -/
def innerFault? : Nat → List Token → Option ScriptFault
  | 0, _ => none
  | depth + 1, ts =>
    let scripts := ts.flatMap fun token => match token with
      | .word _ w => scriptsIn w
      | _ => []
    scripts.findSome? fun (line, text) =>
      let inner := tokens (line.getD 1) text
      let closed := inner.map fun token => match token, line with
        | .finish n, some _ => .sign n ")"
        | token, _ => token
      let reading : Reading Unit := do
        let first := skipNewlines closed
        let rest ← if first.head?.all Token.endsList then pure first
          else do pure (← list (10 * (first.length + 1)) first).2
        match rest, line with
        | .fault line error :: _, _ => throw ⟨line, error⟩
        | rest, some _ => if !headIsSign ")" rest then unexpected rest (some ")")
        | _, none => return
      match reading with
      | .error fault => some fault
      | .ok () => innerFault? depth inner

/-- Scripts inside scripts are looked at to this depth. -/
def maxDepth : Nat := 100

/-- The lines of a script, and the fault that ends them, if there is one. A line is run before
the next one is read, so those in front of a fault count. -/
def linesOf (fuel : Nat) : Nat → List Token → List Script × Option ScriptFault
  | 0, _ => ([], none)
  | count + 1, ts =>
    match skipNewlines ts with
    | [] | [.finish _] => ([], none)
    | ts =>
      match lineFrom fuel (ts.length + 1) ts with
      | .error fault => ([], some fault)
      | .ok (script, rest) =>
        match innerFault? maxDepth (ts.take (ts.length - rest.length)) with
        | some fault => ([], some fault)
        | none =>
          let (more, fault) := linesOf fuel count rest
          (script :: more, fault)

/-- The commands in a text that begins in a line. -/
def ofText (line : Nat) (text : String) : List Script × Option ScriptFault :=
  let ts := tokens line text
  linesOf (10 * (ts.length + 1)) (ts.length + 1) ts

end SchemaTypes.Filter.Script
