import SchemaTypes.Filter.Printf
import SchemaTypes.Filter.Script.Grammar
import SchemaTypes.Filter.Shell.Condition
import SchemaTypes.Filter.Shell.Redirection

/-! The commands of the shell itself. -/
namespace SchemaTypes.Filter.Shell

/-- What a command is asked for. -/
structure Call where
  line : Nat
  args : List String
  /-- Whether a failure does not count as one. -/
  tested : Bool

abbrev Builtin := World → Call → Shell → Shell

/-- Writes what a command has to say, if there is a channel for it. -/
def print (shell : Shell) (call : Call) (name : String) (bytes : ByteArray) : Shell :=
  if bytes.isEmpty || shell.hasOutput then shell.succeed.write bytes
  else shell.fail call.line (name ++ ": I/O error") 1

def printLine (shell : Shell) (call : Call) (name text : String) : Shell :=
  shell.print call name (text ++ "\n").toUTF8

/-- A count that an argument gives. -/
def count? (text : String) : Option Nat :=
  match Condition.number? text with
  | some n => if 0 ≤ n ∧ n ≤ 2147483647 then some n.toNat else none
  | none => none

def illegalNumber (text : String) : String := "Illegal number: " ++ text

/-- Goes on with the count that the first argument gives. -/
def withCount (call : Call) (standard : Nat) (shell : Shell) (go : Nat → Shell) : Shell :=
  match call.args with
  | [] => go standard
  | arg :: _ =>
    match count? arg with
    | some n => go n
    | none => shell.abort call.line (illegalNumber arg)

/-! Ends and jumps. -/

def exit : Builtin := fun _ call shell => withCount call shell.status shell shell.leave

def returnWith : Builtin := fun _ call shell =>
  withCount call shell.status shell fun n => { shell with status := n, halt := some .leave }

/-- Ends loops, or starts their next round. -/
def jump (again : Bool) : Builtin := fun _ call shell =>
  withCount call 1 shell fun n =>
    if n = 0 then shell.abort call.line (illegalNumber (call.args.headD ""))
    else if shell.loops = 0 then shell.succeed
    else { shell.succeed with halt := some (.loops again (min n shell.loops)) }

/-! Parameters, options and bindings. -/

def shift : Builtin := fun _ call shell =>
  withCount call 1 shell fun n =>
    if n ≤ shell.parameters.length then
      { shell.succeed with parameters := shell.parameters.drop n }
    else shell.abort call.line "can't shift that many"

/-- The letters of the options by their names. -/
def optionNames : List (String × Char) :=
  [("errexit", 'e'), ("noglob", 'f'), ("ignoreeof", 'I'), ("interactive", 'i'), ("monitor", 'm'),
    ("noexec", 'n'), ("stdin", 's'), ("xtrace", 'x'), ("verbose", 'v'), ("vi", 'V'),
    ("emacs", 'E'), ("noclobber", 'C'), ("allexport", 'a'), ("notify", 'b'), ("nounset", 'u'),
    ("privileged", 'p'), ("nolog", 'l'), ("debug", 'd')]

/-- Turns an option on or off. Those that change nothing here are passed over. -/
def setOption (shell : Shell) (letter : Char) (on : Bool) : Shell :=
  match letter with
  | 'e' => { shell with isStrict := on }
  | 'u' => { shell with demandsValues := on }
  | 'x' => { shell with traces := on }
  | 'f' => { shell with keepsPatterns := on }
  | 'n' => { shell with isIdle := on }
  | _ => shell

/-- Turns options on or off, and gives back the arguments behind them; `none` if nothing stands
there that could be parameters. -/
def setOptions (shell : Shell) : List String → Except String (Shell × Option (List String))
  | [] => .ok (shell, none)
  | arg :: rest =>
    match arg.toList with
    | ['-', '-'] => .ok (shell, some rest)
    | ['-'] => .ok ({ shell with traces := false }, if rest.isEmpty then none else some rest)
    | sign :: letters =>
      if sign ≠ '-' ∧ sign ≠ '+' then .ok (shell, some (arg :: rest))
      else
        let on := sign == '-'
        let known := (optionNames.map (·.2)).take 16
        let set (shell : Shell) (letters : List Char) : Shell :=
          letters.foldl (fun shell letter => shell.setOption letter on) shell
        match letters.find? fun c => c != 'o' && !known.contains c, letters.contains 'o', rest with
        | some c, _, _ => .error ("Illegal option " ++ sign.toString ++ c.toString)
        | none, false, rest => setOptions (set shell letters) rest
        | none, true, [] => .ok (set shell letters, none)
        | none, true, name :: rest =>
          match optionNames.lookup name with
          | some letter => setOptions (set shell (letter :: letters)) rest
          | none => .error ("Illegal option " ++ sign.toString ++ "o " ++ name)
    | [] => .ok (shell, some (arg :: rest))

/-- Text between quotes: quotes themselves between double ones, all else between single ones. -/
def quoteText (text : String) : String :=
  let isQuote (c : Char) : Bool := c == '\''
  let runs := text.toList.splitBy fun a b => isQuote a == isQuote b
  let front := if text.toList.head?.all isQuote then "''" else ""
  front ++ "".intercalate (runs.map fun run =>
    if run.head?.any isQuote then "\"" ++ String.ofList run ++ "\""
    else "'" ++ String.ofList run ++ "'")

/-- The bindings of some names in order, as commands that would make them. -/
def listing (shell : Shell) (front : String) (names : List String) : String :=
  let entries := (names.mergeSort fun a b => a ≤ b).map fun name =>
    front ++ name ++ ((shell.find? name).map fun value => "=" ++ quoteText value).getD ""
  "".intercalate (entries.map (· ++ "\n"))

def set : Builtin := fun _ call shell =>
  if call.args.isEmpty then
    shell.print call "set" (shell.listing "" (Assoc.keys shell.bindings)).toUTF8
  else
    match shell.setOptions call.args with
    | .ok (shell, parameters) =>
      { shell.succeed with parameters := parameters.getD shell.parameters }
    | .error problem => shell.abort call.line problem

/-- Goes on behind the letters in front of the operands. -/
def withLetters (call : Call) (letters : List Char) (shell : Shell)
    (go : List Char → List String → Shell) : Shell :=
  let rec read (found : List Char) : List String → Shell
    | [] => go found []
    | arg :: rest =>
      match arg.toList with
      | ['-', '-'] => go found rest
      | '-' :: c :: cs =>
        match (c :: cs).find? fun letter => !letters.contains letter with
        | some letter => shell.abort call.line ("Illegal option -" ++ letter.toString)
        | none => read (found ++ c :: cs) rest
      | _ => go found (arg :: rest)
  read [] call.args

/-- The name, and the value if there is one, in an argument. -/
def declaration (arg : String) : String × Option String :=
  let cs := arg.toList
  let name := cs.takeWhile (· != '=')
  (String.ofList name,
    if name.length < cs.length then some (String.ofList (cs.drop (name.length + 1))) else none)

/-- Goes through declarations as long as nothing is wrong with them. -/
def declareAll (call : Call) (declare : Shell → String → Option String → Shell)
    (args : List String) (shell : Shell) : Shell :=
  args.foldl (fun shell arg =>
    let (name, value) := declaration arg
    if shell.isHalted then shell
    else if !isName name then shell.abort call.line (name ++ ": bad variable name")
    else declare shell name value) shell.succeed

/-- Assigns a value if there is one. -/
def assignSome (shell : Shell) (call : Call) (name : String) (value : Option String) : Shell :=
  match value with
  | some value => shell.assign call.line name (some value)
  | none => shell

def exportNames : Builtin := fun _ call shell =>
  withLetters call ['p'] shell fun letters args =>
    if letters.contains 'p' || args.isEmpty then
      shell.print call "export" (shell.listing "export " shell.exported).toUTF8
    else
      declareAll call (fun shell name value =>
        { shell.assignSome call name value with
          exported := if shell.exported.contains name then shell.exported
            else shell.exported ++ [name] }) args shell

def readonly : Builtin := fun _ call shell =>
  withLetters call ['p'] shell fun letters args =>
    if letters.contains 'p' || args.isEmpty then
      shell.print call "readonly" (shell.listing "readonly " shell.fixed).toUTF8
    else
      declareAll call (fun shell name value =>
        { shell.assignSome call name value with fixed := shell.fixed ++ [name] }) args shell

/-- Gives names values that go when the function ends. -/
def localNames : Builtin := fun _ call shell =>
  if shell.depth = 0 then shell.abort call.line "not in a function"
  else
    declareAll call (fun shell name value =>
      { shell with kept := (name, shell.find? name) :: shell.kept }.assignSome call name value)
      call.args shell

def unset : Builtin := fun _ call shell =>
  withLetters call ['f', 'v'] shell fun letters args =>
    if letters.contains 'f' then
      { shell.succeed with functions := shell.functions.filter fun f => !args.contains f.1 }
    else
      declareAll call (fun shell name _ =>
        { shell.assign call.line name none with
          exported := shell.exported.filter (· != name) }) args shell

/-! Input and output. -/

def echo : Builtin := fun _ call shell => shell.print call "echo" (plainEcho call.args)

def printf : Builtin := fun _ call shell =>
  withLetters call [] shell fun _ args =>
    match args with
    | [] => shell.abort call.line "usage: printf format [arg ...]"
    | format :: args =>
      let wording : Printf.Wording := {
        extended := false
        notNumber := (· ++ ": expected numeric value")
        notWhole := (· ++ ": not completely converted")
        invalid := (· ++ ": invalid directive") }
      let p := Printf.run wording format args
      let shell := p.problems.foldl (fun shell problem => shell.report call.line problem) shell
      let shell := shell.print call "printf" p.output
      if p.problems.isEmpty then shell
      else shell.setStatus (if p.problems.any (·.endsWith "directive") then 2 else 1)

/-- Where the line that begins at `i` is over. Behind a backslash a line does not end. -/
def lineEnd (raw : Bool) (bytes : ByteArray) : Nat → Nat → Nat
  | 0, i => i
  | fuel + 1, i =>
    match bytes[i]? with
    | none => i
    | some b =>
      if b = 10 then i + 1
      else if b = 92 && !raw then lineEnd raw bytes fuel (i + 2)
      else lineEnd raw bytes fuel (i + 1)

/-- The bytes of a line, those behind a backslash marked, and whether it ends. -/
def inputLine (raw : Bool) : Nat → List UInt8 → List (UInt8 × Bool) × Bool
  | 0, _ | _, [] => ([], false)
  | fuel + 1, b :: bytes =>
    let push (marked : List (UInt8 × Bool)) (rest : List UInt8) : List (UInt8 × Bool) × Bool :=
      let (more, ended) := inputLine raw fuel rest
      (marked ++ more, ended)
    if b = 10 then ([], true)
    else if b = 92 && !raw then
      match bytes with
      | [] => ([], false)
      | c :: rest => push (if c = 10 then [] else [(c, true)]) rest
    else push [(b, false)] bytes

/-- Splits a line at separators, one field for each name; the last one takes what is left. -/
def inputFields (isSeparator isGap : Char × Bool → Bool) : List String → List (Char × Bool) →
    List (String × String)
  | [], _ => []
  | [name], cs =>
    let cs := cs.dropWhile isGap
    let field := cs.takeWhile (!isSeparator ·)
    let after := (cs.drop field.length).dropWhile isGap
    let after := if after.head?.any isSeparator then after.tail.dropWhile isGap else after
    let whole := if after.isEmpty then field else (cs.reverse.dropWhile isGap).reverse
    [(name, String.ofList (whole.map (·.1)))]
  | name :: names, cs =>
    let cs := cs.dropWhile isGap
    let field := cs.takeWhile (!isSeparator ·)
    let after := (cs.drop field.length).dropWhile isGap
    let after := if after.head?.any isSeparator then after.tail.dropWhile isGap else after
    (name, String.ofList (field.map (·.1))) :: inputFields isSeparator isGap names after

/-- The letters and the names of a `read`, whose letter `p` has an argument of its own. -/
def readArguments (raw : Bool) : List String → Except String (Bool × List String)
  | [] => .ok (raw, [])
  | arg :: rest =>
    match arg, rest with
    | "--", rest => .ok (raw, rest)
    | "-r", rest => readArguments true rest
    | "-p", [] => .error "No arg for -p option"
    | "-p", _ :: rest => readArguments raw rest
    | arg, rest =>
      match arg.toList with
      | '-' :: c :: _ => .error ("Illegal option -" ++ c.toString)
      | _ => .ok (raw, arg :: rest)

/-- Reads a line into bindings. -/
def read : Builtin := fun _ call shell =>
  match readArguments false call.args with
  | .error problem => shell.abort call.line problem
  | .ok (_, []) => shell.abort call.line "arg count"
  | .ok (raw, names) =>
    match names.find? fun name => !isName name with
    | some name => shell.abort call.line (name ++ ": bad variable name")
    | none =>
      let bytes := shell.unread
      let behind := lineEnd raw bytes (bytes.size + 1) 0
      let (line, ended) := inputLine raw (behind + 1) (bytes.extract 0 behind).toList
      let text := Text.ofUtf8Replacing ⟨(line.map (·.1)).toArray⟩
      let marks := line.filterMap fun (b, marked) => if b &&& 192 == 128 then none else some marked
      let separators := shell.separators
      let isSeparator (c : Char × Bool) : Bool := !c.2 && separators.contains c.1
      let isGap (c : Char × Bool) : Bool := isSeparator c && isBlank c.1
      let fields := inputFields isSeparator isGap names (text.toList.zip (marks ++
        List.replicate text.length false))
      let shell := shell.setUnread (bytes.extract behind bytes.size)
      let shell := fields.foldl (fun shell (name, value) =>
        shell.assign call.line name (some value)) shell
      if shell.isHalted then shell else shell.succeedIf ended

/-! Scripts, signals, and what is not waited for. -/

def eval : Builtin := fun world call shell =>
  world.text call.tested 1 (" ".intercalate call.args) shell.succeed

/-- Runs the commands of a file. -/
def dot : Builtin := fun world call shell =>
  match call.args with
  | [] => shell.succeed
  | path :: _ =>
    if !path.contains '/' then shell.abort call.line (path ++ ": not found")
    else
      match shell.place.read path with
      | .error _ => shell.abort call.line (cannotOpen path)
      | .ok bytes =>
        let after := world.text false 1 (Text.ofUtf8Replacing bytes)
          { shell.succeed with label := path ++ ": " }
        { after with halt := if after.halt = some .leave then none else after.halt }

def condition : Builtin := fun _ call shell =>
  match Condition.holds shell.place.entry? call.args with
  | .ok holds => shell.succeedIf holds
  | .error problem => shell.abort call.line problem

def bracket : Builtin := fun world call shell =>
  if call.args.getLast? = some "]" then
    condition world { call with args := call.args.dropLast } shell
  else shell.abort call.line "missing ]"

/-- Sends a signal to this shell, or to one that waits for it. -/
def send (call : Call) (signal : Nat) (shell : Shell) (target : String) : Shell :=
  let digits := match target.toList with
    | '-' :: cs => String.ofList cs
    | _ => target
  if shell.isHalted then shell
  else if target.startsWith "%" then shell.abort call.line ("No such job: " ++ target)
  else
    match count? digits with
    | none => shell.abort call.line (illegalNumber digits)
    | some n =>
      let isOwn := n == shell.process || n == 0
      if target ≠ digits ∨ !(isOwn || shell.waiting.contains n) then
        shell.fail call.line "No such process\n" 1
      else if signal = 0 then shell
      else if isOwn then { shell with struck := shell.struck ++ [signal] }
      else { shell with sent := shell.sent ++ [(n, signal)] }

def kill : Builtin := fun _ call shell =>
  match KillRequest.ofArguments call.args with
  | .error problem => shell.abort call.line problem
  | .ok .names =>
    let names := (List.range signalCount).map fun n => signalName n ++ "\n"
    shell.print call "kill" ("".intercalate names).toUTF8
  | .ok (.nameOf text) =>
    match count? text with
    | none => shell.abort call.line (illegalNumber text)
    | some n =>
      let signal := if 128 < n then n - 128 else n
      if 0 < signal ∧ signal < signalCount then shell.printLine call "kill" (signalName signal)
      else shell.abort call.line ("invalid signal number or exit status: " ++ text)
  | .ok (.send signal targets) => targets.foldl (send call signal) shell.succeed

/-- The signal that a word names for `trap`, where 0 is the end of the shell. -/
def trapSignal? (text : String) : Option Nat :=
  if text.toUpper = "EXIT" then some 0 else signal? text

def trap : Builtin := fun _ call shell =>
  withLetters call [] shell fun _ args =>
    let set (action : Option String) (shell : Shell) (n : Nat) : Shell :=
      let others := shell.traps.filter (·.1 != n)
      { shell with traps := match action.filter (· != "-") with
          | some action => (n, action) :: others
          | none => others }
    let setAll (action : Option String) (names : List String) : Shell :=
      let known := names.takeWhile fun name => (trapSignal? name).isSome
      let shell := (known.filterMap trapSignal?).foldl (set action) shell.succeed
      match names.drop known.length with
      | name :: _ => (shell.writeTo 2 ("trap: " ++ name ++ ": bad trap\n").toUTF8).setStatus 1
      | [] => shell
    match args with
    | [] =>
      let lines := (List.range signalCount).filterMap fun n =>
        (shell.traps.lookup n).map fun action =>
          "trap -- " ++ quoteText action ++ " " ++ (if n = 0 then "EXIT" else signalName n) ++ "\n"
      shell.print call "trap" ("".intercalate lines).toUTF8
    | [_] => setAll none args
    | action :: names =>
      if !action.isEmpty && action.all Char.isDigit then setAll none args
      else setAll (some action) names

/-- Waits for nothing, since scripts that are not waited for end at once. -/
def wait : Builtin := fun _ call shell =>
  call.args.foldl (fun shell arg =>
    match count? arg with
    | none => if shell.isHalted then shell else shell.abort call.line (illegalNumber arg)
    | some n =>
      if n ≤ shell.process then shell.setStatus 127
      else
        match shell.asides[n - shell.process - 1]? with
        | some (.code n) => shell.setStatus n
        | some (.signal n) => (shell.writeTo 2 (signalNotice n).toUTF8).setStatus (128 + n)
        | none => shell.setStatus 127) shell.succeed

/-! Directories. -/

def pathOf (place : List String) : String := "/" ++ "/".intercalate place

def cd : Builtin := fun _ call shell =>
  match call.args.filter (· != "--") with
  | [] | "" :: _ => shell.succeed
  | path :: _ =>
    match shell.place.disk.lookup shell.place.directory path with
    | .ok (found, .directory) =>
      { shell.succeed with place := { shell.place with directory := pathOf found } }
    | _ => shell.abort call.line ("can't cd to " ++ path)

def pwd : Builtin := fun _ call shell =>
  withLetters call ['L', 'P'] shell fun _ _ =>
    shell.printLine call "pwd" shell.place.directory

end SchemaTypes.Filter.Shell
