import SchemaTypes.Assoc
import SchemaTypes.Filter.Script
import SchemaTypes.Filter.Signal
import SchemaTypes.Filter.Tool

/-! The state of a shell. -/
namespace SchemaTypes.Filter

/-- Where bytes come from, or where they go. -/
inductive Channel where
  | source (i : Nat)
  | sink (i : Nat)
  /-- A file that grows. -/
  | file (place : List String)
  /-- Nothing comes from it, and what goes there is lost. -/
  | void
deriving DecidableEq, Repr

/-- The open channels by their numbers: 0 is the input, 1 the output, and 2 is for complaints. -/
abbrev Channels := List (Nat × Channel)

/-- Gives a number a channel, or closes it. -/
def Channels.set (channels : Channels) (n : Nat) (channel : Option Channel) : Channels :=
  let others := List.filter (·.1 != n) channels
  match channel with
  | some channel => (n, channel) :: others
  | none => others

/-- Why the commands that follow are passed over. -/
inductive Halt where
  /-- The shell ends. -/
  | exit (status : ExitStatus)
  /-- The shell ends because of an error. -/
  | abort
  /-- A function or a file of commands ends. -/
  | leave
  /-- So many loops end, the last of them with its next round if `again` holds. -/
  | loops (again : Bool) (count : Nat)
deriving DecidableEq, Repr

/-- What a program sees of the shell that starts it. -/
structure Surroundings where
  place : Place
  environment : List (String × String) := []
  /-- Signals that do nothing. -/
  ignored : List Nat := []
  /-- Whether complaints go where the output goes. -/
  joined : Bool := false
  /-- Whether there is nowhere for the output to go. -/
  silent : Bool := false
  /-- The numbers of the shells that wait, the innermost first. -/
  waiting : List Nat := []

structure Shell where
  /-- The number by which it is known. Scripts that are not waited for have the next ones. -/
  process : Nat
  /-- The numbers of the shells that wait for it, the innermost first. -/
  waiting : List Nat
  name : String
  parameters : List String
  place : Place
  bindings : List (String × String)
  /-- The names whose bindings programs see. -/
  exported : List String
  /-- The names whose bindings stay as they are. -/
  fixed : List String := []
  functions : List (String × Script) := []
  /-- What to do on a signal, or at the end, which has the number 0. -/
  traps : List (Nat × String) := []
  /-- Whether the shell ends when a command fails. -/
  isStrict : Bool := false
  /-- Whether an unset parameter is an error. -/
  demandsValues : Bool := false
  /-- Whether commands are shown before they are run. -/
  traces : Bool := false
  /-- Whether commands are only read. -/
  isIdle : Bool := false
  /-- Whether patterns do not stand for paths. -/
  keepsPatterns : Bool := false
  /-- The command that is at work, for complaints. -/
  label : String := ""
  /-- The number of loops around the command. -/
  loops : Nat := 0
  /-- The number of functions that are at work. -/
  depth : Nat := 0
  /-- Bindings that come back when the function ends. -/
  kept : List (String × Option String) := []
  /-- How the scripts that were not waited for have ended. -/
  asides : List ExitStatus := []
  status : Nat := 0
  /-- The status of the last script whose output stands in the words of the command. -/
  outputStatus : Nat := 0
  channels : Channels
  /-- What is left to read. -/
  sources : Array ByteArray
  /-- What was written. -/
  sinks : Array ByteArray
  halt : Option Halt := none
  /-- Whether this is no part of another shell. -/
  isMain : Bool := true
  /-- The signals that the whole shell was sent and has not yet met. -/
  struck : List Nat := []
  /-- The signals that were sent to the shells that wait, with their numbers. -/
  sent : List (Nat × Nat) := []

/-- What a program left, with the input that it did not read, the files as it left them, and the
signals that it sent. -/
structure ProgramRun where
  result : ProgramResult
  rest : ByteArray
  disk : Disk
  sent : List (Nat × Nat) := []

/-- What a shell needs around it. -/
structure World where
  start : Surroundings → (name : String) → (args : List String) → (input : ByteArray) →
    Except SystemError ProgramRun
  /-- Runs a text that begins in a line; `tested` says that a failure in it does not count. -/
  text : (tested : Bool) → (line : Nat) → String → Shell → Shell
  /-- Runs a script. -/
  script : (tested : Bool) → Script → Shell → Shell

namespace Shell

/-! Files and channels. -/

def setDisk (shell : Shell) (disk : Disk) : Shell :=
  { shell with place := { shell.place with disk } }

/-- Writes to a channel; what goes to no sink is lost. -/
def writeTo (shell : Shell) (channel : Nat) (bytes : ByteArray) : Shell :=
  match shell.channels.lookup channel with
  | some (.sink i) => { shell with sinks := shell.sinks.modify i (· ++ bytes) }
  | some (.file place) =>
    match shell.place.disk.find? place with
    | some (.file content) => shell.setDisk (shell.place.disk.put place (.file (content ++ bytes)))
    | _ => shell
  | _ => shell

def write (shell : Shell) (bytes : ByteArray) : Shell := shell.writeTo 1 bytes

/-- Whether there is a channel for the output. -/
def hasOutput (shell : Shell) : Bool :=
  match shell.channels.lookup 1 with
  | none | some (.source _) => false
  | _ => true

/-- What is left of the input. -/
def unread (shell : Shell) : ByteArray :=
  match shell.channels.lookup 0 with
  | some (.source i) => shell.sources[i]?.getD .empty
  | _ => .empty

def setUnread (shell : Shell) (bytes : ByteArray) : Shell :=
  match shell.channels.lookup 0 with
  | some (.source i) => { shell with sources := shell.sources.setIfInBounds i bytes }
  | _ => shell

def addSource (shell : Shell) (bytes : ByteArray) : Shell × Channel :=
  ({ shell with sources := shell.sources.push bytes }, .source shell.sources.size)

/-- Runs something with other channels. -/
def withChannels (shell : Shell) (channels : Channels) (run : Shell → Shell) : Shell :=
  { run { shell with channels } with channels := shell.channels }

/-! Statuses and complaints. -/

/-- Whether the commands that follow are passed over. -/
def isHalted (shell : Shell) : Bool := shell.halt.isSome || shell.isIdle

def setStatus (shell : Shell) (status : Nat) : Shell := { shell with status }

def succeed (shell : Shell) : Shell := shell.setStatus 0

def succeedIf (shell : Shell) (holds : Bool) : Shell := shell.setStatus (if holds then 0 else 1)

/-- Complains of something in a line of the script. -/
def report (shell : Shell) (line : Nat) (text : String) : Shell :=
  shell.writeTo 2
    (shell.name ++ ": " ++ toString line ++ ": " ++ shell.label ++ text ++ "\n").toUTF8

/-- Complains of a command that could not do its work. -/
def fail (shell : Shell) (line : Nat) (text : String) (status : Nat) : Shell :=
  (shell.report line text).setStatus status

/-- Complains of an error that ends the shell. -/
def abort (shell : Shell) (line : Nat) (text : String) : Shell :=
  { shell.fail line text 2 with halt := some .abort }

def leave (shell : Shell) (code : Nat) : Shell :=
  { shell with status := code % 256, halt := some (.exit (.code (code % 256))) }

/-- The status by which a shell knows how something ended. -/
def statusOf : ExitStatus → Nat
  | .code n => n
  | .signal n => 128 + n

/-- How a shell that is at its end has ended. -/
def exitStatus (shell : Shell) : ExitStatus :=
  match shell.halt with
  | some (.exit status) => status
  | _ => .code shell.status

/-! Bindings. -/

def find? (shell : Shell) (name : String) : Option String := Assoc.find? name shell.bindings

/-- Gives a name a value, or takes away the one that it has. -/
def put (shell : Shell) (name : String) (value : Option String) : Shell :=
  { shell with bindings := match value with
      | some value => Assoc.put name value shell.bindings
      | none => shell.bindings.filter (·.1 != name) }

/-- As `put`, but a fixed name is an error. -/
def assign (shell : Shell) (line : Nat) (name : String) (value : Option String) : Shell :=
  if shell.isHalted then shell
  else if shell.fixed.contains name then shell.abort line (name ++ ": is read only")
  else shell.put name value

/-- Puts back the values that names had. -/
def putBack (shell : Shell) (kept : List (String × Option String)) : Shell :=
  kept.foldl (fun shell (name, value) => shell.put name value) shell

/-- The values that names have. -/
def keep (shell : Shell) (names : List String) : List (String × Option String) :=
  names.map fun name => (name, shell.find? name)

def surroundings (shell : Shell) : Surroundings where
  place := shell.place
  environment := shell.bindings.filter fun entry => shell.exported.contains entry.1
  ignored := (shell.traps.filter (·.2 == "")).map (·.1)
  joined := shell.channels.lookup 1 == shell.channels.lookup 2
  silent := !shell.hasOutput
  waiting := shell.process :: shell.waiting

/-! Signals and parts of a shell. -/

/-- Meets a signal: it is passed over, or starts what was asked for, or ends the shell. -/
def meet (world : World) (shell : Shell) (signal : Nat) : Shell :=
  if shell.isHalted then shell
  else
    match if signal = 9 then none else shell.traps.lookup signal with
    | some "" => shell
    | some action =>
      let after := world.text false 1 action shell
      if after.isHalted then after else after.setStatus shell.status
    | none =>
      if isHarmless signal then shell else { shell with halt := some (.exit (.signal signal)) }

/-- Meets the signals that have come. A part of a shell leaves them to the whole of it. -/
def meetAll (world : World) (shell : Shell) : Shell :=
  if shell.isMain then shell.struck.foldl (meet world) { shell with struck := [] } else shell

/-- Does what was asked for at the end of a shell that no signal has ended. -/
def runLastTrap (world : World) (shell : Shell) : Shell :=
  match shell.halt, shell.traps.lookup 0 with
  | some (.exit (.signal _)), _ | _, none => shell
  | halt, some action =>
    let after := world.text false 1 action { shell with halt := none, traps := [] }
    match after.halt with
    | some (.exit _) | some .abort => after
    | _ => { after with halt, status := shell.status }

/-- Runs something in a part of the shell with channels of its own, and says how that has ended.
What it read and wrote stays. -/
def separated (world : World) (shell : Shell) (channels : Channels) (run : Shell → Shell) :
    ExitStatus × Shell :=
  let traps := shell.traps.filter (·.2 == "")
  let after := runLastTrap world (run { shell with channels, traps, isMain := false })
  (after.exitStatus, { shell with
    place := { shell.place with disk := after.place.disk }
    sources := after.sources
    sinks := after.sinks
    struck := after.struck
    sent := after.sent })

/-- Runs something in a part of the shell, and takes over its status. -/
def isolated (world : World) (shell : Shell) (channels : Channels) (run : Shell → Shell) : Shell :=
  let (status, shell) := shell.separated world channels run
  let shell := match status with
    | .code _ => shell
    | .signal n => shell.writeTo 2 (signalNotice n).toUTF8
  meetAll world (shell.setStatus (statusOf status))

end Shell
end SchemaTypes.Filter
