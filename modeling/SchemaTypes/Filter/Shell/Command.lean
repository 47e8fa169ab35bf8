import SchemaTypes.Filter.Shell.Builtin

/-! Running commands by their names. -/
namespace SchemaTypes.Filter.Shell

def quiet : Builtin := fun _ _ shell => shell.succeed

/-- The commands that look for no others. -/
def plainBuiltins : List (String × Builtin) :=
  [(":", quiet), ("true", quiet), ("false", fun _ _ shell => shell.setStatus 1), ("echo", echo),
    ("printf", printf), ("test", condition), ("[", bracket), ("read", read), ("exit", exit),
    ("return", returnWith), ("break", jump false), ("continue", jump true), ("shift", shift),
    ("set", set), ("export", exportNames), ("readonly", readonly), ("local", localNames),
    ("unset", unset), ("eval", eval), (".", dot), ("trap", trap), ("kill", kill), ("wait", wait),
    ("cd", cd), ("chdir", cd), ("pwd", pwd), ("hash", quiet), ("jobs", quiet), ("ulimit", quiet),
    ("umask", fun _ call shell =>
      if call.args.isEmpty then shell.printLine call "umask" "0022" else shell.succeed)]

/-- Whether programs are looked for where they are. -/
def findsPrograms (shell : Shell) : Bool :=
  ((shell.find? "PATH").getD "").splitOn ":" |>.any fun directory =>
    directory == "/usr/bin" || directory == "/bin"

/-- Starts a program and waits for its end. -/
def launch (world : World) (line : Nat) (name : String) (args : List String) (shell : Shell) :
    ExitStatus × Shell :=
  let failed (text : String) (status : Nat) : ExitStatus × Shell :=
    (.code status, shell.fail line (name ++ ": " ++ text) status)
  if name = "" then failed "Permission denied" 127
  else if !name.contains '/' && !shell.findsPrograms then failed "not found" 127
  else
    match world.start shell.surroundings name args shell.unread with
    | .error .permissionDenied => failed "Permission denied" 126
    | .error .argumentTooLong => failed "Argument list too long" 126
    | .error _ => failed "not found" 127
    | .ok run =>
      let shell := (shell.setUnread run.rest).setDisk run.disk
      let shell := (shell.write run.result.output).writeTo 2 run.result.errors
      let isOwn (entry : Nat × Nat) : Bool := entry.1 == shell.process
      let shell := { shell with
        struck := shell.struck ++ (run.sent.filter isOwn).map Prod.snd
        sent := shell.sent ++ run.sent.filter (!isOwn ·) }
      (run.result.status, shell.setStatus (statusOf run.result.status))

/-- Starts a program as a command, and says so if a signal has ended it. -/
def program (world : World) (line : Nat) (name : String) (args : List String) (shell : Shell) :
    Shell :=
  match launch world line name args shell with
  | (.code _, shell) => shell
  | (.signal n, shell) => shell.writeTo 2 (signalNotice n).toUTF8

/-- Starts a program in the place of the shell. -/
def become (world : World) (line : Nat) (name : String) (args : List String) (shell : Shell) :
    Shell :=
  let (status, shell) := launch world line name args shell
  { shell with halt := some (.exit status), traps := [] }

/-- The most functions that may be at work. -/
def maxDepth : Nat := 1000

/-- Runs a function with parameters of its own. -/
def callFunction (world : World) (call : Call) (body : Script) (shell : Shell) : Shell :=
  if maxDepth ≤ shell.depth then
    shell.abort call.line
      ("Maximum function recursion depth (" ++ toString maxDepth ++ ") reached")
  else
    let after := world.script call.tested body { shell with
      parameters := call.args
      loops := 0
      depth := shell.depth + 1
      kept := [] }
    { after.putBack after.kept with
      parameters := shell.parameters
      loops := shell.loops
      depth := shell.depth
      kept := shell.kept
      halt := if after.halt = some .leave then none else after.halt }

/-- Runs a command of the shell. Its errors end the shell only if it is a special one. -/
def callBuiltin (world : World) (call : Call) (name : String) (isSpecial : Bool)
    (builtin : Builtin) (shell : Shell) : Shell :=
  let after := builtin world call { shell with label := name ++ ": " }
  { after with
    label := shell.label
    halt := if after.halt = some .abort ∧ !isSpecial then none else after.halt }

/-- What a name leads to. -/
inductive Meaning where
  | reserved
  | function
  | builtin (isSpecial : Bool)
  | program (path : String)
deriving DecidableEq, Repr

def builtinNames : List String := plainBuiltins.map (·.1) ++ ["exec", "type", "command"]

def meaning? (shell : Shell) (name : String) : Option Meaning :=
  let isSpecial := Script.specialNames.contains name
  if Script.reserved.contains name || name == "in" then some .reserved
  else if !isSpecial && (shell.functions.lookup name).isSome then some .function
  else if builtinNames.contains name then some (.builtin isSpecial)
  else if name.contains '/' then
    if (shell.place.entry? name).isSome then some (.program name) else none
  else
    let path := "/usr/bin/" ++ name
    if shell.findsPrograms && (shell.place.entry? path).isSome then some (.program path) else none

/-- What is said of a name. -/
def describe (shell : Shell) (name : String) : String :=
  name ++ match shell.meaning? name with
    | some .reserved => " is a shell keyword"
    | some .function => " is a shell function"
    | some (.builtin true) => " is a special shell builtin"
    | some (.builtin false) => " is a shell builtin"
    | some (.program path) => " is " ++ path
    | none => ": not found"

/-- The command `type`. -/
def describeAll : Builtin := fun _ call shell =>
  let isKnown (name : String) : Bool := (shell.meaning? name).isSome
  let text := "".intercalate (call.args.map fun name => shell.describe name ++ "\n")
  (shell.print call "type" text.toUTF8).setStatus (if call.args.all isKnown then 0 else 127)

/-- The command `command` where it runs nothing. -/
def describeFirst : Builtin := fun _ call shell =>
  withLetters call ['p', 'v', 'V'] shell fun letters args =>
    match args with
    | [] => shell.succeed
    | name :: _ =>
      match shell.meaning? name, letters.contains 'V' with
      | none, true => (shell.printLine call "command" (shell.describe name)).setStatus 127
      | none, false => shell.setStatus 127
      | some _, true => shell.printLine call "command" (shell.describe name)
      | some (.program path), false => shell.printLine call "command" path
      | some _, false => shell.printLine call "command" name

/-- The command `exec`. -/
def replace : Builtin := fun world call shell =>
  match call.args with
  | [] => shell.succeed
  | name :: args => become world call.line name args shell

def builtins : List (String × Builtin) :=
  plainBuiltins ++ [("exec", replace), ("type", describeAll), ("command", describeFirst)]

/-- The words behind `command` and its letters, if they are to be run. -/
def commanded? : List String → Option (List String)
  | [] => none
  | word :: rest =>
    match word.toList with
    | ['-', '-'] => if rest.isEmpty then none else some rest
    | '-' :: letters => if letters.all (· == 'p') && letters ≠ [] then commanded? rest else none
    | _ => some (word :: rest)

/-- The words of a command that `command` stands in front of, and whether it does. -/
def withoutCommand : Nat → List String → Bool × List String
  | 0, words => (false, words)
  | fuel + 1, words =>
    match words with
    | "command" :: rest =>
      match commanded? rest with
      | some rest => (true, (withoutCommand fuel rest).2)
      | none => (false, words)
    | words => (false, words)

/-- Runs a command; behind `command` no function is meant, and nothing is special. -/
def invoke (world : World) (call : Call) (isBare : Bool) (name : String) (shell : Shell) : Shell :=
  let isSpecial := Script.specialNames.contains name && isBare
  let function? := if isBare && !isSpecial then shell.functions.lookup name else none
  match function?, builtins.lookup name with
  | some body, _ => callFunction world call body shell
  | none, some builtin => callBuiltin world call name isSpecial builtin shell
  | none, none => program world call.line name call.args shell

/-- Shows a command before it is run. -/
def trace (shell : Shell) (assignments : List (String × String)) (fields : List String)
    (channels : Channels) : Shell :=
  if shell.traces && !(assignments.isEmpty && fields.isEmpty) then
    let words := assignments.map (fun (name, value) => name ++ "=" ++ value) ++ fields
    shell.withChannels channels (·.writeTo 2 ("+ " ++ " ".intercalate words ++ "\n").toUTF8)
  else shell

/-- Runs a simple command behind its redirections. Without a name its status is zero, or that of a
script in its words. What stands in front of a name holds while the command is run, and stays if
there is no name or a special one. -/
def simpleBody (world : World) (tested : Bool) (line : Nat) (assignments : List (String × Word))
    (isBare : Bool) (words fields : List String) (own : Channels) : StateM Shell Unit := do
  let names := assignments.map (·.1)
  let before ← get
  let assigned ← assignAll world line assignments
  if (← get).isHalted then return
  modify (·.trace assigned words own)
  match fields with
  | [] => modify fun shell => shell.setStatus shell.outputStatus
  | name :: args =>
    let added := names.filter fun name => !before.exported.contains name
    modify fun shell => { shell with exported := shell.exported ++ added }
    modify (invoke world ⟨line, args, tested⟩ isBare name)
    modify fun shell =>
      let shell := { shell with exported := shell.exported.filter (!added.contains ·) }
      if isBare && Script.specialNames.contains name then shell
      else shell.putBack (before.keep names)

/-- The fields of a command. Assignments behind a command that declares names are not split. -/
def commandFields (world : World) (line : Nat) (found : List String) :
    List Word → StateM Shell (List String)
  | [] => return found
  | word :: rest => do
    let name := (withoutCommand found.length found).2.headD ""
    let declares := name == "export" || name == "readonly" || name == "local"
    let own ←
      if declares && (Script.assignment? word).isSome then do pure [← wordText world line word]
      else wordFields world line word
    commandFields world line (found ++ own) rest

/-- Runs a simple command. -/
def simple (world : World) (tested : Bool) (line : Nat) (assignments : List (String × Word))
    (words : List Word) (redirects : List Redirect) (shell : Shell) : Shell :=
  let own := shell.channels
  let run : StateM Shell Unit := do
    modify ({ · with outputStatus := 0 })
    let found ← commandFields world line [] words
    let (isCommanded, fields) := withoutCommand found.length found
    if (← get).isHalted then return
    let isSpecial := !isCommanded && Script.specialNames.contains (fields.headD "")
    if ← redirectAll world line redirects then
      simpleBody world tested line assignments (!isCommanded) found fields own
      if fields != ["exec"] then modify (undo own redirects)
    else
      modify fun shell => { undo own redirects shell with
        halt := if isSpecial && !shell.isHalted then some .abort else shell.halt }
  meetAll world (run.run shell).2

end SchemaTypes.Filter.Shell
