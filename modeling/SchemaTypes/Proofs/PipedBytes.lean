import SchemaTypes.Piping

/-! No byte of an exchange gets lost or changes its place: what a step takes from one party it gives
to the next, and an end of a pipe closes only when its bytes have passed or nobody reads them. -/
namespace SchemaTypes.Piping

variable {γ : Type} {program : Program γ} {capacity : Nat}

namespace State

@[simp] theorem outlets_setOutlet (state : State γ) (outlet : Outlet) (pipe : Pipe) :
    (state.setOutlet outlet pipe).outlets = Function.update state.outlets outlet pipe := rfl

@[simp] theorem gathered_setOutlet (state : State γ) (outlet : Outlet) (pipe : Pipe) :
    (state.setOutlet outlet pipe).gathered = state.gathered := rfl

@[simp] theorem status_setOutlet (state : State γ) (outlet : Outlet) (pipe : Pipe) :
    (state.setOutlet outlet pipe).status = state.status := rfl

end State

/-! ### What the program reads and writes -/

def received (events : List Event) : List UInt8 := events.flatMap Event.received

def written (outlet : Outlet) (events : List Event) : List UInt8 :=
  events.flatMap (Event.written outlet)

@[simp] theorem received_concat (events : List Event) (event : Event) :
    received (events ++ [event]) = received events ++ event.received := by
  simp [received]

@[simp] theorem written_concat (outlet : Outlet) (events : List Event) (event : Event) :
    written outlet (events ++ [event]) = written outlet events ++ event.written outlet := by
  simp [written]

/-- The bytes of the source that the program has not read are in the pipe or with the writer. -/
theorem Step.source_kept {state after : State γ} {event : Event}
    (step : Step program capacity state event after) :
    event.received ++ (after.input.held ++ after.unsent) = state.input.held ++ state.unsent := by
  cases step with
  | send chunk rest writable unsent => simp [Event.received, Pipe.put, unsent]
  | sent | broken => simp [Event.received, Pipe.closeWriting]
  | gather | drained | wait => rfl
  | serve running awaits serves =>
    cases serves with
    | read chunk rest readable held => simp [Event.received, Pipe.leave, held]
    | readEnd | readClosed | write | writeClosed | closeInput | close => rfl
  | move => rfl
  | stop => rfl

/-- The bytes that the program writes to a stream get behind those on their way to the reader. -/
theorem Step.outlet_kept {state after : State γ} {event : Event}
    (step : Step program capacity state event after) (outlet : Outlet) :
    after.gathered outlet ++ (after.outlets outlet).held
      = state.gathered outlet ++ (state.outlets outlet).held ++ event.written outlet := by
  cases step with
  | send | sent | broken | wait | move => simp [Event.written]
  | gather target chunk rest readable held nonempty =>
    rcases eq_or_ne outlet target with rfl | h
    · simp [State.gather, Pipe.leave, Event.written, held]
    · simp [State.gather, Event.written, h]
  | drained target readable held closed =>
    rcases eq_or_ne outlet target with rfl | h
    · simp [Pipe.closeReading, Event.written]
    · simp [Event.written, h]
  | serve running awaits serves =>
    cases serves with
    | read | readEnd | readClosed | writeClosed | closeInput => simp [Event.written]
    | write target chunk rest writable readable fits nonempty =>
      rcases eq_or_ne outlet target with rfl | h
      · simp [Pipe.put, Event.written]
      · simp [Event.written, h, h.symm]
    | close target =>
      rcases eq_or_ne outlet target with rfl | h
      · simp [Pipe.closeWriting, Event.written]
      · simp [Event.written, h]
  | stop => simp [State.stop, Pipe.closeWriting, Event.written]

theorem Runs.source_kept {first state : State γ} {events : List Event}
    (run : Runs program capacity first events state) :
    received events ++ (state.input.held ++ state.unsent) = first.input.held ++ first.unsent := by
  induction run with
  | refl => rfl
  | step run step ih => rw [received_concat, List.append_assoc, step.source_kept, ih]

theorem Runs.outlet_kept {first state : State γ} {events : List Event}
    (run : Runs program capacity first events state) (outlet : Outlet) :
    state.gathered outlet ++ (state.outlets outlet).held
      = first.gathered outlet ++ (first.outlets outlet).held ++ written outlet events := by
  induction run with
  | refl => simp [written]
  | step run step ih => rw [step.outlet_kept, ih, written_concat, List.append_assoc]

/-! ### The order in which ends close -/

/-- A stream within its room, which the reader leaves only at its end. -/
structure Pipe.IsOrderly (capacity : Nat) (pipe : Pipe) : Prop where
  fits : pipe.held.length ≤ capacity
  drained : pipe.isReadable = false → pipe.held = [] ∧ pipe.isWritable = false

namespace Pipe.IsOrderly

variable {pipe : Pipe}

theorem put {chunk : List UInt8} (readable : pipe.isReadable)
    (fits : pipe.held.length + chunk.length ≤ capacity) : (pipe.put chunk).IsOrderly capacity where
  fits := by simpa [Pipe.put] using fits
  drained closed := by simp [Pipe.put, readable] at closed

theorem leave {chunk rest : List UInt8} (h : pipe.IsOrderly capacity)
    (held : pipe.held = chunk ++ rest) : (pipe.leave rest).IsOrderly capacity where
  fits := by
    have hfits := h.fits
    rw [held, List.length_append] at hfits
    show rest.length ≤ capacity
    omega
  drained closed := by
    obtain ⟨hnil, hclosed⟩ := h.drained closed
    rw [held, List.append_eq_nil_iff] at hnil
    exact ⟨hnil.2, hclosed⟩

theorem closeWriting (h : pipe.IsOrderly capacity) : pipe.closeWriting.IsOrderly capacity where
  fits := h.fits
  drained closed := ⟨(h.drained closed).1, rfl⟩

theorem closeReading (h : pipe.IsOrderly capacity) (held : pipe.held = [])
    (closed : pipe.isWritable = false) : pipe.closeReading.IsOrderly capacity where
  fits := h.fits
  drained _ := ⟨held, closed⟩

end Pipe.IsOrderly

/-- Why ends are closed: the writer has sent all or nobody reads, the reader has seen the end of
both streams and of the program, and the program has none left when it has ended. -/
structure State.IsOrderly (capacity : Nat) (state : State γ) : Prop where
  sent : state.input.isWritable = false → state.unsent = [] ∨ state.input.isReadable = false
  outlets : ∀ outlet, (state.outlets outlet).IsOrderly capacity
  waited : ∀ status, state.status = some status →
    state.phase = .ended status ∧ ∀ outlet, (state.outlets outlet).isReadable = false
  stopped : ∀ status, state.phase = .ended status →
    state.input.isReadable = false ∧ ∀ outlet, (state.outlets outlet).isWritable = false

namespace State.IsOrderly

variable {state after : State γ}

theorem start (program : Program γ) (capacity : Nat) (source : List UInt8) :
    (State.start program source).IsOrderly capacity where
  sent := nofun
  outlets _ := ⟨Nat.zero_le _, nofun⟩
  waited := nofun
  stopped := nofun

theorem status_eq_none (h : state.IsOrderly capacity) {point : γ}
    (running : state.phase = .running point) : state.status = none := by
  rw [Option.eq_none_iff_forall_ne_some]
  intro status hstatus
  have hended := (h.waited status hstatus).1
  rw [running] at hended
  cases hended

theorem setOutlet (h : state.IsOrderly capacity) (target : Outlet) {pipe : Pipe}
    (hpipe : pipe.IsOrderly capacity) (outlet : Outlet) :
    ((state.setOutlet target pipe).outlets outlet).IsOrderly capacity := by
  rcases eq_or_ne outlet target with rfl | hne
  · simpa using hpipe
  · simpa [hne] using h.outlets outlet

theorem serve (h : state.IsOrderly capacity) {point : γ} (running : state.phase = .running point)
    {action : Action} {reply : Reply} (serves : Serves capacity state action reply after)
    (next : γ) : ({ after with phase := .running next } : State γ).IsOrderly capacity := by
  have unknown := h.status_eq_none running
  cases serves with
  | read | readEnd | readClosed | writeClosed =>
    exact ⟨h.sent, h.outlets, by simp [unknown], nofun⟩
  | write target chunk rest writable readable fits =>
    exact ⟨h.sent, h.setOutlet target (.put readable fits), by simp [unknown], nofun⟩
  | closeInput => exact ⟨fun _ => .inr rfl, h.outlets, by simp [unknown], nofun⟩
  | close target =>
    exact ⟨h.sent, h.setOutlet target (h.outlets target).closeWriting, by simp [unknown], nofun⟩

/-- What the reader does to a stream that it still reads. -/
theorem readOutlet (h : state.IsOrderly capacity) {target : Outlet} {pipe : Pipe}
    (readable : (state.outlets target).isReadable) (hpipe : pipe.IsOrderly capacity)
    (same : pipe.isWritable = (state.outlets target).isWritable)
    (gathered : Outlet → List UInt8) :
    { state.setOutlet target pipe with gathered }.IsOrderly capacity := by
  refine ⟨h.sent, h.setOutlet target hpipe, ?_, ?_⟩
  · intro status hstatus
    have hclosed := (h.waited status hstatus).2 target
    rw [readable] at hclosed
    cases hclosed
  · intro status hphase
    obtain ⟨hinput, hclosed⟩ := h.stopped status hphase
    refine ⟨hinput, fun outlet => ?_⟩
    rcases eq_or_ne outlet target with rfl | hne
    · simpa [same] using hclosed outlet
    · simpa [hne] using hclosed outlet

theorem step (h : state.IsOrderly capacity) {event : Event}
    (step : Step program capacity state event after) : after.IsOrderly capacity := by
  cases step with
  | send chunk rest writable =>
    exact ⟨fun closed => by simp [Pipe.put, writable] at closed, h.outlets, h.waited, h.stopped⟩
  | sent writable unsent => exact ⟨fun _ => .inl unsent, h.outlets, h.waited, h.stopped⟩
  | broken writable unsent closed => exact ⟨fun _ => .inr closed, h.outlets, h.waited, h.stopped⟩
  | gather target chunk rest readable held =>
    exact h.readOutlet readable ((h.outlets target).leave held) rfl _
  | drained target readable held closed =>
    exact h.readOutlet readable ((h.outlets target).closeReading held closed) rfl _
  | wait unknown drained ended =>
    refine ⟨h.sent, h.outlets, fun status hstatus => ?_, h.stopped⟩
    cases hstatus
    exact ⟨ended, drained⟩
  | serve running awaits serves => exact h.serve running serves _
  | move running => exact ⟨h.sent, h.outlets, by simp [h.status_eq_none running], nofun⟩
  | stop running =>
    refine ⟨fun _ => .inr rfl, fun outlet => (h.outlets outlet).closeWriting, ?_, ?_⟩
    · simp [State.stop, h.status_eq_none running]
    · exact fun _ _ => ⟨rfl, fun _ => rfl⟩

theorem run (h : state.IsOrderly capacity) {events : List Event}
    (run : Runs program capacity state events after) : after.IsOrderly capacity := by
  induction run with
  | refl => exact h
  | step _ hstep ih => exact ih.step hstep

end State.IsOrderly
end SchemaTypes.Piping
