import Mathlib.Logic.Function.Basic
import SchemaTypes.Formatter

/-! The exchange of a formatter with its program, once the program has started. A writer sends the
source and closes its end. A reader gathers what the program writes until both streams are closed,
and then waits for the program to end. The program does what it likes, in any order. -/
namespace SchemaTypes.Piping

/-- A stream that the program writes. -/
inductive Outlet where
  | output
  | errors
deriving DecidableEq, Repr

/-- A pipe: the bytes that are on their way, and which of its ends are open. -/
structure Pipe where
  held : List UInt8 := []
  isWritable : Bool := true
  isReadable : Bool := true
deriving DecidableEq, Repr

namespace Pipe

def put (pipe : Pipe) (bytes : List UInt8) : Pipe := { pipe with held := pipe.held ++ bytes }

def leave (pipe : Pipe) (rest : List UInt8) : Pipe := { pipe with held := rest }

def closeWriting (pipe : Pipe) : Pipe := { pipe with isWritable := false }

def closeReading (pipe : Pipe) : Pipe := { pipe with isReadable := false }

end Pipe

/-- What a program does with its ends of the pipes. -/
inductive Action where
  | read (limit : Nat)
  | write (outlet : Outlet) (bytes : List UInt8)
  | closeInput
  | close (outlet : Outlet)
deriving DecidableEq, Repr

/-- What comes of an action. A read without bytes tells of the end of the input. -/
inductive Reply where
  | bytes (chunk : List UInt8)
  | taken (count : Nat)
  | done
  | refused
deriving DecidableEq, Repr

/-- Any program: it may do one of several actions next, whichever is answered first, or change on
its own, or end. -/
structure Program (γ : Type) where
  start : γ
  awaits : γ → Action → Prop
  resume : γ → Action → Reply → γ
  moves : γ → γ → Prop
  ends : γ → ExitStatus → Prop

inductive Phase (γ : Type) where
  | running (point : γ)
  | ended (status : ExitStatus)

/-- The writer, the reader, the program, and the pipes between them. The writer is done when its end
of the input is closed, the reader when it knows the status. -/
structure State (γ : Type) where
  phase : Phase γ
  unsent : List UInt8
  input : Pipe := {}
  outlets : Outlet → Pipe := fun _ => {}
  gathered : Outlet → List UInt8 := fun _ => []
  status : Option ExitStatus := none

namespace State

variable {γ : Type}

def start (program : Program γ) (source : List UInt8) : State γ :=
  { phase := .running program.start, unsent := source }

def setOutlet (state : State γ) (outlet : Outlet) (pipe : Pipe) : State γ :=
  { state with outlets := Function.update state.outlets outlet pipe }

/-- The bytes of a stream are with the reader, and only `rest` stays in the pipe. -/
def gather (state : State γ) (outlet : Outlet) (chunk rest : List UInt8) : State γ :=
  { state.setOutlet outlet ((state.outlets outlet).leave rest) with
    gathered := Function.update state.gathered outlet (state.gathered outlet ++ chunk) }

/-- The ends of the program close with it, as no other program holds them. -/
def stop (state : State γ) (status : ExitStatus) : State γ :=
  { state with
    phase := .ended status
    input := state.input.closeReading
    outlets := fun outlet => (state.outlets outlet).closeWriting }

/-- What the exchange leaves when the reader and the writer are done. -/
def result? (state : State γ) : Option ProgramResult :=
  if state.input.isWritable then none
  else state.status.map fun status => {
    status
    output := ⟨(state.gathered .output).toArray⟩
    errors := ⟨(state.gathered .errors).toArray⟩ }

end State

/-- How the pipes answer an action, with room for `capacity` bytes in each. A read waits for bytes
or the end of the input, a write for room. -/
inductive Serves {γ : Type} (capacity : Nat) : State γ → Action → Reply → State γ → Prop
  | read {state : State γ} {limit : Nat} (chunk rest : List UInt8)
    (readable : state.input.isReadable) (held : state.input.held = chunk ++ rest)
    (within : chunk.length ≤ limit) (nonempty : chunk ≠ [] ∨ limit = 0) :
    Serves capacity state (.read limit) (.bytes chunk)
      { state with input := state.input.leave rest }
  | readEnd {state : State γ} {limit : Nat} (readable : state.input.isReadable)
    (held : state.input.held = []) (closed : state.input.isWritable = false) :
    Serves capacity state (.read limit) (.bytes []) state
  | readClosed {state : State γ} {limit : Nat} (closed : state.input.isReadable = false) :
    Serves capacity state (.read limit) .refused state
  | write {state : State γ} (outlet : Outlet) (chunk rest : List UInt8)
    (writable : (state.outlets outlet).isWritable) (readable : (state.outlets outlet).isReadable)
    (fits : (state.outlets outlet).held.length + chunk.length ≤ capacity)
    (nonempty : chunk ≠ [] ∨ rest = []) :
    Serves capacity state (.write outlet (chunk ++ rest)) (.taken chunk.length)
      (state.setOutlet outlet ((state.outlets outlet).put chunk))
  | writeClosed {state : State γ} {outlet : Outlet} {bytes : List UInt8}
    (closed : (state.outlets outlet).isWritable = false
      ∨ (state.outlets outlet).isReadable = false) :
    Serves capacity state (.write outlet bytes) .refused state
  | closeInput {state : State γ} :
    Serves capacity state .closeInput .done { state with input := state.input.closeReading }
  | close {state : State γ} (outlet : Outlet) :
    Serves capacity state (.close outlet) .done
      (state.setOutlet outlet (state.outlets outlet).closeWriting)

/-- Who takes a step, and what a step of the program is. -/
inductive Event where
  | writer
  | reader
  | served (action : Action) (reply : Reply)
  | moved
  | ended (status : ExitStatus)
deriving DecidableEq, Repr

namespace Event

/-- Whether the step is one of the formatter and not one of the program. -/
def isOwn : Event → Bool
  | writer | reader => true
  | served .. | moved | ended _ => false

/-- The bytes of the source that the program reads. -/
def received : Event → List UInt8
  | served _ (.bytes chunk) => chunk
  | _ => []

/-- The bytes that the program writes to a stream. -/
def written (outlet : Outlet) : Event → List UInt8
  | served (.write target bytes) (.taken count) => if target = outlet then bytes.take count else []
  | _ => []

/-- Whether the program learns that its input is at its end. -/
def IsInputEnd (event : Event) : Prop :=
  ∃ limit, 0 < limit ∧ event = served (.read limit) (.bytes [])

end Event

/-- One step of the exchange. A write of the formatter to a pipe that nobody reads ends its sending,
and is no failure. -/
inductive Step {γ : Type} (program : Program γ) (capacity : Nat) :
    State γ → Event → State γ → Prop
  | send {state : State γ} (chunk rest : List UInt8) (writable : state.input.isWritable)
    (unsent : state.unsent = chunk ++ rest) (nonempty : chunk ≠ [])
    (readable : state.input.isReadable)
    (fits : state.input.held.length + chunk.length ≤ capacity) :
    Step program capacity state .writer
      { state with unsent := rest, input := state.input.put chunk }
  | sent {state : State γ} (writable : state.input.isWritable) (unsent : state.unsent = []) :
    Step program capacity state .writer { state with input := state.input.closeWriting }
  | broken {state : State γ} (writable : state.input.isWritable) (unsent : state.unsent ≠ [])
    (closed : state.input.isReadable = false) :
    Step program capacity state .writer { state with input := state.input.closeWriting }
  | gather {state : State γ} (outlet : Outlet) (chunk rest : List UInt8)
    (readable : (state.outlets outlet).isReadable)
    (held : (state.outlets outlet).held = chunk ++ rest) (nonempty : chunk ≠ []) :
    Step program capacity state .reader (state.gather outlet chunk rest)
  | drained {state : State γ} (outlet : Outlet) (readable : (state.outlets outlet).isReadable)
    (held : (state.outlets outlet).held = [])
    (closed : (state.outlets outlet).isWritable = false) :
    Step program capacity state .reader
      (state.setOutlet outlet (state.outlets outlet).closeReading)
  | wait {state : State γ} {status : ExitStatus} (unknown : state.status = none)
    (drained : ∀ outlet, (state.outlets outlet).isReadable = false)
    (ended : state.phase = .ended status) :
    Step program capacity state .reader { state with status := some status }
  | serve {state after : State γ} {point : γ} {action : Action} {reply : Reply}
    (running : state.phase = .running point) (awaits : program.awaits point action)
    (serves : Serves capacity state action reply after) :
    Step program capacity state (.served action reply)
      { after with phase := .running (program.resume point action reply) }
  | move {state : State γ} {point next : γ} (running : state.phase = .running point)
    (moves : program.moves point next) :
    Step program capacity state .moved { state with phase := .running next }
  | stop {state : State γ} {point : γ} {status : ExitStatus}
    (running : state.phase = .running point) (ends : program.ends point status) :
    Step program capacity state (.ended status) (state.stop status)

/-- The steps of an exchange, in any order that the pipes allow. -/
inductive Runs {γ : Type} (program : Program γ) (capacity : Nat) (first : State γ) :
    List Event → State γ → Prop
  | refl : Runs program capacity first [] first
  | step {events : List Event} {event : Event} {state after : State γ}
    (run : Runs program capacity first events state)
    (step : Step program capacity state event after) :
    Runs program capacity first (events ++ [event]) after

end SchemaTypes.Piping
