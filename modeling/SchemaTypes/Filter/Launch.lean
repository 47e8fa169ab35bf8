import SchemaTypes.Filter.ByteSet
import SchemaTypes.Filter.Shell.Run

/-! Starting the filters by name. They stand for all programs: no other program is ever found. -/
namespace SchemaTypes.Filter

/-- The tools by name. -/
def tools (read : FileReader) : List (String × Tool) :=
  [("echo", echo), ("true", succeed), ("false", fail), ("cat", cat read), ("tr", tr),
    ("wc", wc read), ("printf", printf)]

def shellName : String := "sh"

/-- All names of programs. -/
def programNames : List String :=
  shellName :: (tools fun _ => .error .notFound).map (·.1)

/-- The directories of the programs. -/
def programDirectories : List (List String) := [["bin"], ["usr", "bin"]]

/-- Directories that are there besides those of the programs. -/
def otherDirectories : List (List String) := [["usr"], ["tmp"], ["etc"]]

/-- A disk with the programs, which are without content. -/
def withPrograms (disk : Disk) : Disk :=
  let directories := otherDirectories ++ programDirectories
  let entries := directories.map (·, Entry.directory)
    ++ programDirectories.flatMap fun directory => programNames.map fun name =>
      (directory ++ [name], Entry.file .empty)
  ⟨disk.entries ++ entries.filter fun entry => (disk.find? entry.1).isNone⟩

/-- The program that a name or a path leads to. A name without a slash is looked for among the
programs only; a file that is no program must not be run. -/
def programName (place : Place) (name : String) :
    Except SystemError String :=
  if name = "" then .error .notFound
  else if name = "." ∨ name = ".." then .error .permissionDenied
  else if !name.contains '/' then
    if Disk.maxNameSize < name.utf8ByteSize then .error .nameTooLong
    else if programNames.contains name then .ok name
    else .error .notFound
  else
    match (withPrograms place.disk).lookup place.directory name with
    | .error cause => .error cause
    | .ok (found, _) =>
      let program := found.getLast?.getD ""
      if programDirectories.contains found.dropLast && programNames.contains program then
        .ok program
      else .error .permissionDenied

/-! The shell as a program. -/

/-- What the arguments of a shell ask for. -/
structure ShellCall where
  command : Bool := false
  fromInput : Bool := false
  /-- The options, as arguments of `set`. -/
  options : List String := []
  operands : List String := []

/-- Reads the flags of a shell, or finds one that it does not have. -/
def shellCall (call : ShellCall) : List String → Except String ShellCall
  | [] => .ok call
  | arg :: rest =>
    match arg.toList with
    | ['-'] | ['-', '-'] => .ok { call with operands := rest }
    | sign :: letters =>
      if sign ≠ '-' ∧ sign ≠ '+' then .ok { call with operands := arg :: rest }
      else
        match letters.find? fun c => !"abCcefIilmnopsuvVEx".toList.contains c with
        | some c => .error ("Illegal option " ++ sign.toString ++ c.toString)
        | none =>
          let set := letters.filter fun c => c != 'c' && c != 'l'
          let call := { call with
            command := call.command || letters.contains 'c'
            fromInput := call.fromInput || letters.contains 's'
            options := call.options
              ++ if set.isEmpty then [] else [String.ofList (sign :: set)] }
          if letters.contains 'o' then
            match rest with
            | [] => .ok call
            | name :: rest =>
              if (Shell.optionNames.lookup name).isSome then
                shellCall { call with options := call.options ++ [name] } rest
              else .error ("Illegal option " ++ sign.toString ++ "o " ++ name)
          else shellCall call rest
    | [] => .ok { call with operands := arg :: rest }

/-- The result of a shell that could not start. -/
def shellRefused (surroundings : Surroundings) (name problem : String) (input : ByteArray) :
    ProgramRun :=
  let errors := (name ++ ": 0: " ++ problem ++ "\n").toUTF8
  { result := { status := .code 2, output := .empty, errors }
    rest := input
    disk := surroundings.place.disk }

/-- The bindings of a new shell that programs do not see. -/
def ownBindings : List (String × String) := [("IFS", " \t\n"), ("OPTIND", "1"), ("PS4", "+ ")]

/-- The number of a shell for which no other waits. -/
def firstProcess : Nat := 4242

/-- The shell that a program `sh` is when it starts. -/
def newShell (surroundings : Surroundings) (name : String) (parameters : List String)
    (input : ByteArray) : Shell where
  process := (surroundings.waiting.head?.map (· + 100)).getD firstProcess
  waiting := surroundings.waiting
  name := name
  parameters := parameters
  place := surroundings.place
  bindings := surroundings.environment.foldl (fun bindings (name, value) =>
    if name = "IFS" then bindings else Assoc.put name value bindings)
      (("PPID", toString (surroundings.waiting.headD 1)) :: ownBindings)
  exported := Assoc.keys surroundings.environment
  traps := surroundings.ignored.map (·, "")
  channels := (if surroundings.silent then [] else [(1, .sink 0)])
    ++ [(0, .source 0), (2, .sink (if surroundings.joined then 0 else 1))]
  sources := #[input]
  sinks := #[.empty, .empty]

/-- Runs a script in a new shell. -/
def runShell (world : World) (shell : Shell) (options : List String) (text : String) :
    ProgramRun :=
  let shell := match shell.setOptions options with
    | .ok (shell, _) => shell
    | .error _ => shell
  let shell := (world.text false 1 text shell).runLastTrap world
  let sink (i : Nat) : ByteArray := shell.sinks[i]?.getD .empty
  { result := { status := shell.exitStatus, output := sink 0, errors := sink 1 }
    rest := shell.sources[0]?.getD .empty
    disk := shell.place.disk
    sent := shell.sent }

/-- The text of a script in bytes. -/
def scriptText (bytes : ByteArray) : String :=
  Text.ofUtf8Replacing ⟨bytes.data.filter (· != 0)⟩

/-- The program `sh`: a script follows `-c`, or stands in a file, or is the input. -/
def shellProgram (world : World) (surroundings : Surroundings) (name : String)
    (args : List String) (input : ByteArray) : ProgramRun :=
  let refused (problem : String) : ProgramRun := shellRefused surroundings name problem input
  match shellCall {} args with
  | .error problem => refused problem
  | .ok call =>
    let run (name : String) (parameters : List String) (text : String) (input : ByteArray) :
        ProgramRun :=
      runShell world (newShell surroundings name parameters input) call.options text
    match call.command, call.fromInput, call.operands with
    | true, _, [] => refused "-c requires an argument"
    | true, _, [text] => run name [] text input
    | true, _, text :: zero :: parameters => run zero parameters text input
    | false, false, file :: parameters =>
      match surroundings.place.read file with
      | .ok bytes => run file parameters (scriptText bytes) input
      | .error .isDirectory => run file parameters "" input
      | .error _ => refused (Shell.cannotOpen file)
    | false, _, parameters => run name parameters (scriptText input) .empty

/-- The most bytes that one argument may have. -/
def maxArgumentSize : Nat := 131071

/-- Reads files as a program sees them, which may open its input once more by a path. -/
def readerFor (place : Place) (input : ByteArray) : FileReader := fun path =>
  if path = "/dev/stdin" then .ok input
  else if path = "/dev/null" then .ok .empty
  else place.read path

/-- The result of a tool that has no channel for its output. -/
def silenced (isCat : Bool) (name : String) (result : ToolResult) : ToolResult :=
  if isCat then { code := 1, errors := complain name "standard output: Bad file descriptor" }
  else if result.output.isEmpty then result
  else
    { result with
      code := 1
      output := .empty
      errors := result.errors ++ complain name "write error: Bad file descriptor" }

/-- Runs a tool in its surroundings. -/
def toolRun (tool : Tool) (isCat : Bool) (surroundings : Surroundings) (name : String)
    (args : List String) (input : ByteArray) : ProgramRun :=
  let result := tool name args input
  let result := if surroundings.silent then silenced isCat name result else result
  let (output, errors) := if surroundings.joined then (result.together, .empty)
    else (result.output, result.errors.toUTF8)
  let drained := result.drained || args.contains "/dev/stdin"
  { result := { status := .code result.code, output, errors }
    rest := if drained then .empty else input
    disk := surroundings.place.disk }

/-- Starts a program. -/
def start (world : World) (surroundings : Surroundings) (name : String) (args : List String)
    (input : ByteArray) : Except SystemError ProgramRun :=
  let place := surroundings.place
  let tools := tools (readerFor place input)
  if (name :: args).any (·.contains '\x00') then .error .nulInArgument
  else
    match programName place name with
    | .error cause => .error cause
    | .ok found =>
      if args.any fun arg => maxArgumentSize < arg.utf8ByteSize then .error .argumentTooLong
      else
        match tools.lookup found with
        | some tool => .ok (toolRun tool (found == "cat") surroundings name args input)
        | none =>
          let disk := withPrograms place.disk
          .ok (shellProgram world { surroundings with place := { place with disk } } name args
            input)

/-- Runs a text line by line. -/
def runText (world : World) (tested : Bool) (line : Nat) (text : String) (shell : Shell) :
    Shell :=
  let (scripts, fault) := Script.ofText line text
  let shell := scripts.foldl (fun shell script => shell.unlessHalted (script.run world tested))
    shell
  match fault, shell.halt with
  | some fault, none => shell.abort fault.line fault.error.message
  | _, _ => shell

/-- What shells need, for `depth` levels of scripts inside scripts. -/
def world : (depth : Nat) → World
  | 0 => {
    start := fun _ _ _ _ => .error .notFound
    text := fun _ line _ shell => shell.abort line "too many nested scripts"
    script := fun _ _ shell => shell.abort 1 "too many nested scripts" }
  | depth + 1 =>
    let inner := world depth
    { start := start inner
      text := runText inner
      script := fun tested script => script.run inner tested }

/-- What the first program sees. -/
def environment : List (String × String) :=
  [("PATH", "/usr/local/sbin:/usr/local/bin:/usr/sbin:/usr/bin:/sbin:/bin")]

/-- A disk without the programs that were not on it `before`. -/
def withoutPrograms (before disk : Disk) : Disk :=
  let programs := withPrograms ⟨[]⟩
  ⟨disk.entries.filter fun entry =>
    (programs.find? entry.1).isNone || (before.find? entry.1).isSome⟩

/-- Starts the filters in a directory. -/
def launcher (directory : String) : Launcher Disk := fun program args input disk =>
  match start (world 2000) { place := { disk, directory }, environment } program args input with
  | .error cause => (.error (.notStarted cause), disk)
  | .ok run => (.ok run.result, withoutPrograms disk run.disk)

end SchemaTypes.Filter
