import SchemaTypes.Filter.Shell.Command

/-! Running scripts. -/
namespace SchemaTypes.Filter

namespace Shell

/-- Runs something unless the commands that follow are passed over. -/
def unlessHalted (run : Shell → Shell) (shell : Shell) : Shell :=
  if shell.isHalted then shell else run shell

/-- Takes away one of the loops that are to end. It says whether this one goes on. -/
def endLoop (shell : Shell) : Bool × Shell :=
  match shell.halt with
  | some (.loops again count) =>
    if count ≤ 1 then (again, { shell with halt := none })
    else (false, { shell with halt := some (.loops again (count - 1)) })
  | some _ => (false, shell)
  | none => (!shell.isIdle, shell)

/-- Runs a body as long as a condition succeeds (or fails), `rounds` times at most. The status is
that of the last body, at first `last`. -/
def runLoop (fails : Bool) (condition body : Shell → Shell) :
    (rounds : Nat) → (last : Nat) → Shell → Shell
  | 0, last, shell => shell.setStatus last
  | rounds + 1, last, shell =>
    let tried := condition shell
    if tried.isHalted then
      let (again, shell) := tried.endLoop
      if again then runLoop fails condition body rounds last shell else shell
    else if (tried.status != 0) == fails then
      let (again, shell) := (body tried).endLoop
      if again then runLoop fails condition body rounds shell.status shell else shell
    else tried.setStatus last

/-- Runs a body once for each field. -/
def runEach (line : Nat) (name : String) (body : Shell → Shell) : List String → Shell → Shell
  | [], shell => shell
  | field :: fields, shell =>
    let (again, shell) := (unlessHalted body (shell.assign line name (some field))).endLoop
    if again then runEach line name body fields shell else shell

/-- Runs loops; they count as loops around their commands. -/
def inLoop (run : Shell → Shell) (shell : Shell) : Shell :=
  { run { shell with loops := shell.loops + 1 } with loops := shell.loops }

/-- Whether a subject fits one of the patterns. -/
def fitsAny (world : World) (line : Nat) (subject : String) : List Word → StateM Shell Bool
  | [] => return false
  | pattern :: rest => do
    let marked ← wordMarks world line pattern
    if (Pattern.ofMarked marked).fits subject.toList then return true
    else fitsAny world line subject rest

end Shell

/-- The most rounds of a loop. -/
def Script.maxRounds : Nat := 100000

mutual

/-- Runs a script. If it is `tested`, a failure in it does not end a strict shell. -/
def Script.run (world : World) (tested : Bool) : Script → Shell → Shell
  | .nothing, shell => shell.succeed
  | .simple line assignments words redirects, shell =>
    (shell.simple world tested line assignments words redirects).settle tested
  | .pipe first second, shell =>
    let whole (shell : Shell) : Shell :=
      let before := shell.status
      let sink := shell.sinks.size
      let shell := { shell with sinks := shell.sinks.push .empty }
      let shell : Shell := shell.isolated world (shell.channels.set 1 (some (.sink sink)))
        (Script.run world tested first)
      let (shell, source) := shell.addSource (shell.sinks[sink]?.getD .empty)
      let shell := shell.setStatus before
      shell.isolated world (shell.channels.set 0 (some source)) (Script.run world tested second)
    (shell.isolated world shell.channels whole).settle tested
  | .both first second, shell =>
    let shell := Script.run world true first shell
    if shell.status = 0 then shell.unlessHalted (Script.run world tested second) else shell
  | .either first second, shell =>
    let shell := Script.run world true first shell
    if shell.status = 0 then shell else shell.unlessHalted (Script.run world tested second)
  | .sequence first second, shell =>
    (Script.run world tested first shell).unlessHalted (Script.run world tested second)
  | .negated body, shell =>
    (Script.run world true body shell).unlessHalted fun shell => shell.succeedIf (shell.status != 0)
  | .aside body, shell =>
    let (status, shell) := shell.separated world (shell.channels.set 0 (some .void))
      (Script.run world false body)
    { shell.succeed with asides := shell.asides ++ [status] }.meetAll world
  | .group line alone body redirects, shell =>
    let whole (shell : Shell) : Shell :=
      if alone then
        (shell.isolated world shell.channels (Script.run world tested body)).settle tested
      else Script.run world tested body shell
    Shell.redirected world tested line redirects whole shell
  | .branch condition yes no, shell =>
    (Script.run world true condition shell).unlessHalted fun shell =>
      if shell.status = 0 then Script.run world tested yes shell
      else Script.run world tested no shell
  | .loop fails condition body, shell =>
    Shell.inLoop (Shell.runLoop fails (Script.run world true condition)
      (Script.run world tested body) Script.maxRounds 0) shell
  | .each line name words body, shell =>
    let (fields, shell) := (Shell.fields world line words).run shell
    shell.unlessHalted fun shell =>
      let shell := if fields.isEmpty then shell.succeed else shell
      Shell.inLoop (Shell.runEach line name (Script.run world tested body) fields) shell
  | .choose line subject arms, shell =>
    let (text, shell) := (Shell.wordText world line subject).run shell
    shell.unlessHalted (arms.run world tested line text)
  | .define name body, shell =>
    { shell.succeed with functions := (name, body) :: shell.functions.filter (·.1 != name) }

/-- Runs the first arm that fits a subject. -/
def Arms.run (world : World) (tested : Bool) (line : Nat) (subject : String) :
    Arms → Shell → Shell
  | .done, shell => shell.succeed
  | .arm patterns body rest, shell =>
    let (fits, shell) := (Shell.fitsAny world line subject patterns).run shell
    shell.unlessHalted fun shell =>
      if fits then body.run world tested shell else rest.run world tested line subject shell

end

end SchemaTypes.Filter
