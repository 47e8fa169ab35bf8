import SchemaTypes.Proofs.PipedBytes
import SchemaTypes.Proofs.RunSource

/-! An exchange of a formatter with its program always gets on: a program that waits for its pipes
is served in the end, and one that has ended leaves a result, which tells what the program wrote. -/
namespace SchemaTypes

/-! ### What a formatter reports of a program -/

theorem Text.toUTF8_of_ofUtf8 {bytes : ByteArray} {text : String} (h : ofUtf8 bytes = .ok text) :
    text.toUTF8 = bytes := by
  rw [ofUtf8, String.fromUTF8?] at h
  split at h
  next read hread =>
    cases h
    split at hread
    · cases hread
      rfl
    · cases hread
  next => cases h

theorem Text.eq_of_ofUtf8_eq_error {bytes : ByteArray} {fault : Utf8Fault}
    (h : ofUtf8 bytes = .error fault) :
    fault = utf8Fault bytes.toList ∧ ∀ text : String, text.toUTF8 ≠ bytes := by
  constructor
  · rw [ofUtf8] at h
    split at h
    · cases h
    · cases h
      rfl
  · rintro text rfl
    rw [ofUtf8_toUTF8] at h
    cases h

namespace FormatCommand

/-- A program that fails is reported with what it complains of. One that ends well is reported with
what it wrote, if its input could be written and its output is text. -/
inductive Reports (result : ProgramResult) : Except FormatError String → Prop
  | failed (failure : result.status.isSuccess = false) :
    Reports result
      (.error (.failed result.status (Text.trim (Text.ofUtf8Replacing result.errors))))
  | unwritten {cause : SystemError} (success : result.status.isSuccess)
    (input : result.inputFault = some (.unwritten cause)) :
    Reports result (.error (.notExchanged cause))
  | panicked (success : result.status.isSuccess) (input : result.inputFault = some .panicked) :
    Reports result (.error (.other "formatter input thread panicked"))
  | styled {text : String} (success : result.status.isSuccess) (input : result.inputFault = none)
    (output : text.toUTF8 = result.output) : Reports result (.ok text)
  | notText (success : result.status.isSuccess) (input : result.inputFault = none)
    (output : ∀ text : String, text.toUTF8 ≠ result.output) :
    Reports result (.error (.notText (Text.utf8Fault result.output.toList)))

theorem reports_outcome (result : ProgramResult) : Reports result (outcome result) := by
  unfold outcome
  split
  next success =>
    split
    next cause input => exact .unwritten success input
    next input => exact .panicked success input
    next input =>
      cases h : Text.ofUtf8 result.output with
      | ok text => exact .styled success input (Text.toUTF8_of_ofUtf8 h)
      | error fault =>
        obtain ⟨rfl, hother⟩ := Text.eq_of_ofUtf8_eq_error h
        exact .notText success input hother
  next failure => exact .failed (by simpa using failure)

end FormatCommand

namespace Piping

variable {γ : Type} {program : Program γ} {capacity : Nat} {state : State γ}

/-! ### The steps of the formatter -/

def Pipe.work (pipe : Pipe) : Nat := pipe.held.length + pipe.isReadable.toNat

/-- A bound for the steps that the formatter can take on its own. -/
def State.work (state : State γ) : Nat :=
  state.unsent.length + state.input.isWritable.toNat + (state.outlets .output).work
    + (state.outlets .errors).work + state.status.isNone.toNat

theorem State.work_setOutlet_lt {target : Outlet} {pipe : Pipe}
    (h : pipe.work < (state.outlets target).work) :
    (state.setOutlet target pipe).work < state.work := by
  unfold work setOutlet
  cases target
  · simp
    omega
  · simp
    omega

theorem State.work_gather (state : State γ) (outlet : Outlet) (chunk rest : List UInt8) :
    (state.gather outlet chunk rest).work
      = (state.setOutlet outlet ((state.outlets outlet).leave rest)).work := rfl

theorem Step.work_lt {after : State γ} {event : Event}
    (step : Step program capacity state event after) (own : event.isOwn) :
    after.work < state.work := by
  cases step with
  | send chunk rest writable unsent nonempty =>
    have := List.length_pos_of_ne_nil nonempty
    simp [State.work, Pipe.put, unsent]
    omega
  | sent writable | broken writable => simp [State.work, Pipe.closeWriting, writable]
  | gather target chunk rest readable held nonempty =>
    have := List.length_pos_of_ne_nil nonempty
    rw [State.work_gather]
    exact State.work_setOutlet_lt (by simp [Pipe.work, Pipe.leave, held, this])
  | drained target readable =>
    exact State.work_setOutlet_lt (by simp [Pipe.work, Pipe.closeReading, readable])
  | wait unknown => simp [State.work, unknown]
  | serve | move | stop => cases own

theorem Runs.length_le_work {after : State γ} {events : List Event}
    (run : Runs program capacity state events after) (own : ∀ event ∈ events, event.isOwn) :
    events.length + after.work ≤ state.work := by
  induction run with
  | refl => simp
  | step run step ih =>
    have hlt := step.work_lt (own _ (by simp))
    have hle := ih fun event h => own event (by simp [h])
    simp only [List.length_append, List.length_singleton]
    omega

/-- The writer gets on where the pipe is empty or nobody reads it. -/
theorem exists_writer_step (program : Program γ) (hcapacity : 0 < capacity)
    (writable : state.input.isWritable)
    (h : state.input.held = [] ∨ state.input.isReadable = false) :
    ∃ after, Step program capacity state .writer after := by
  cases hunsent : state.unsent with
  | nil => exact ⟨_, .sent writable hunsent⟩
  | cons byte rest =>
    by_cases readable : state.input.isReadable
    · have hheld : state.input.held = [] := h.resolve_right (by simp [readable])
      exact ⟨_, .send [byte] rest writable hunsent (by simp) readable (by simp [hheld]; omega)⟩
    · exact ⟨_, .broken writable (by simp [hunsent]) (by simpa using readable)⟩

/-- The reader gets on where a stream has bytes or is at its end. -/
theorem exists_reader_step (program : Program γ) (capacity : Nat) {outlet : Outlet}
    (readable : (state.outlets outlet).isReadable)
    (h : (state.outlets outlet).held ≠ [] ∨ (state.outlets outlet).isWritable = false) :
    ∃ after, Step program capacity state .reader after := by
  by_cases hheld : (state.outlets outlet).held = []
  · exact ⟨_, .drained outlet readable hheld (h.resolve_left (by simpa using hheld))⟩
  · exact ⟨_, .gather outlet _ [] readable (List.append_nil _).symm hheld⟩

/-- What a program waits for can be done, or the formatter gets on. -/
theorem State.IsOrderly.exists_step_of_awaits (h : state.IsOrderly capacity)
    (hcapacity : 0 < capacity) {point : γ} (running : state.phase = .running point)
    {action : Action} (awaits : program.awaits point action) :
    (∃ event after, event.isOwn ∧ Step program capacity state event after)
      ∨ ∃ reply after, Step program capacity state (.served action reply) after := by
  have served {reply : Reply} {after : State γ}
      (serves : Serves capacity state action reply after) :
      ∃ reply after, Step program capacity state (.served action reply) after :=
    ⟨reply, _, .serve running awaits serves⟩
  cases action with
  | closeInput => exact .inr (served .closeInput)
  | close outlet => exact .inr (served (.close outlet))
  | read limit =>
    by_cases readable : state.input.isReadable
    · cases held : state.input.held with
      | cons byte rest =>
        cases limit with
        | zero => exact .inr (served (.read [] _ readable rfl le_rfl (.inr rfl)))
        | succ limit =>
          exact .inr (served (.read [byte] rest readable held (by simp) (.inl (by simp))))
      | nil =>
        by_cases writable : state.input.isWritable
        · obtain ⟨after, hstep⟩ := exists_writer_step program hcapacity writable (.inl held)
          exact .inl ⟨.writer, after, rfl, hstep⟩
        · exact .inr (served (.readEnd readable held (by simpa using writable)))
    · exact .inr (served (.readClosed (by simpa using readable)))
  | write outlet bytes =>
    by_cases writable : (state.outlets outlet).isWritable
    · by_cases readable : (state.outlets outlet).isReadable
      · by_cases held : (state.outlets outlet).held = []
        · cases bytes with
          | nil =>
            exact .inr (served (.write outlet [] [] writable readable (h.outlets outlet).fits
              (.inr rfl)))
          | cons byte rest =>
            exact .inr (served (.write outlet [byte] rest writable readable
              (by simp [held]; omega) (.inl (by simp))))
        · obtain ⟨after, hstep⟩ := exists_reader_step program capacity readable (.inl held)
          exact .inl ⟨.reader, after, rfl, hstep⟩
      · exact .inr (served (.writeClosed (.inr (by simpa using readable))))
    · exact .inr (served (.writeClosed (.inl (by simpa using writable))))

/-! ### The end of an exchange -/

theorem Step.own_of_ended {after : State γ} {event : Event} {status : ExitStatus}
    (step : Step program capacity state event after) (ended : state.phase = .ended status) :
    event.isOwn ∧ after.phase = .ended status := by
  cases step with
  | send | sent | broken | gather | drained | wait => exact ⟨rfl, ended⟩
  | serve running | move running | stop running =>
    rw [ended] at running
    cases running

theorem Runs.own_of_ended {after : State γ} {events : List Event} {status : ExitStatus}
    (run : Runs program capacity state events after) (ended : state.phase = .ended status) :
    (∀ event ∈ events, event.isOwn) ∧ after.phase = .ended status := by
  induction run with
  | refl => exact ⟨nofun, ended⟩
  | step run step ih =>
    obtain ⟨hown, hended⟩ := step.own_of_ended ih.2
    refine ⟨?_, hended⟩
    simpa [or_imp, forall_and] using ⟨ih.1, hown⟩

/-- When the program has ended, the formatter gets on until it has its result. -/
theorem State.IsOrderly.exists_step_of_ended (h : state.IsOrderly capacity)
    (hcapacity : 0 < capacity) {status : ExitStatus} (ended : state.phase = .ended status)
    (unfinished : state.result? = none) :
    ∃ event after, Step program capacity state event after := by
  obtain ⟨hinput, hclosed⟩ := h.stopped status ended
  by_cases writable : state.input.isWritable
  · obtain ⟨after, hstep⟩ := exists_writer_step program hcapacity writable (.inr hinput)
    exact ⟨.writer, after, hstep⟩
  · by_cases drained : ∀ outlet, (state.outlets outlet).isReadable = false
    · have unknown : state.status = none := by simpa [result?, writable] using unfinished
      exact ⟨.reader, _, .wait unknown drained ended⟩
    · obtain ⟨outlet, readable⟩ := not_forall.1 drained
      obtain ⟨after, hstep⟩ := exists_reader_step program capacity
        (by simpa using readable) (.inr (hclosed outlet))
      exact ⟨.reader, after, hstep⟩

theorem State.IsOrderly.exists_result (h : state.IsOrderly capacity) (hcapacity : 0 < capacity)
    {status : ExitStatus} (ended : state.phase = .ended status) :
    ∃ events after, Runs program capacity state events after ∧ after.result?.isSome := by
  have hlong (n : Nat) : ∃ events after, Runs program capacity state events after
      ∧ (after.result?.isSome ∨ n ≤ events.length) := by
    induction n with
    | zero => exact ⟨[], state, .refl, .inr le_rfl⟩
    | succ n ih =>
      obtain ⟨events, after, hrun, hresult | hlength⟩ := ih
      · exact ⟨events, after, hrun, .inl hresult⟩
      · cases hresult : after.result? with
        | some result => exact ⟨events, after, hrun, .inl (by simp [hresult])⟩
        | none =>
          obtain ⟨event, next, hstep⟩ :=
            (h.run hrun).exists_step_of_ended hcapacity (hrun.own_of_ended ended).2 hresult
          exact ⟨_, next, .step hrun hstep, .inr (by simpa using hlength)⟩
  obtain ⟨events, after, hrun, hresult | hlength⟩ := hlong (state.work + 1)
  · exact ⟨events, after, hrun, hresult⟩
  · have hwork := hrun.length_le_work (hrun.own_of_ended ended).1
    omega

/-- The program learns of the end of its input only behind all bytes of the source. -/
theorem State.IsOrderly.eq_nil_of_inputEnd (h : state.IsOrderly capacity) {after : State γ}
    {event : Event} (step : Step program capacity state event after) (hend : event.IsInputEnd) :
    state.input.held = [] ∧ state.unsent = [] := by
  obtain ⟨limit, hlimit, rfl⟩ := hend
  cases step with
  | serve running awaits serves =>
    cases serves with
    | read chunk rest readable held within nonempty =>
      rcases nonempty with hnil | hzero
      · exact absurd rfl hnil
      · omega
    | readEnd readable held closed =>
      exact ⟨held, (h.sent closed).resolve_right (by simp [readable])⟩

theorem Runs.received_of_inputEnd {first : State γ} (h : first.IsOrderly capacity)
    {events : List Event} (run : Runs program capacity first events state)
    (hend : ∃ event ∈ events, event.IsInputEnd) :
    received events = first.input.held ++ first.unsent := by
  induction run with
  | refl => simp at hend
  | @step events event state after run step ih =>
    have hall : received events = first.input.held ++ first.unsent := by
      obtain ⟨seen, hmem, hseen⟩ := hend
      rcases List.mem_append.1 hmem with hmem | hmem
      · exact ih ⟨seen, hmem, hseen⟩
      · obtain rfl := List.mem_singleton.1 hmem
        obtain ⟨hheld, hunsent⟩ := (h.run run).eq_nil_of_inputEnd step hseen
        rw [← run.source_kept, hheld, hunsent, List.append_nil, List.append_nil]
    -- The books allow no bytes behind all of them.
    have hbooks := (run.step step).source_kept
    rw [received_concat, hall, List.append_assoc, List.append_right_eq_self,
      List.append_eq_nil_iff] at hbooks
    rw [received_concat, hall, hbooks.1, List.append_nil]

/-- A result tells the status of the program and all that it wrote, and no fault of the input. -/
theorem Runs.result_eq {source : List UInt8} {events : List Event} {result : ProgramResult}
    (run : Runs program capacity (.start program source) events state)
    (hresult : state.result? = some result) :
    state.phase = .ended result.status ∧ result.inputFault = none
      ∧ result.output = ⟨(written .output events).toArray⟩
      ∧ result.errors = ⟨(written .errors events).toArray⟩ := by
  have horderly := (State.IsOrderly.start program capacity source).run run
  unfold State.result? at hresult
  split at hresult
  · cases hresult
  · obtain ⟨status, hstatus, rfl⟩ := Option.map_eq_some_iff.1 hresult
    obtain ⟨hphase, hdrained⟩ := horderly.waited status hstatus
    have hgathered (outlet : Outlet) : state.gathered outlet = written outlet events := by
      have hkept := run.outlet_kept outlet
      rw [((horderly.outlets outlet).drained (hdrained outlet)).1, List.append_nil] at hkept
      exact hkept
    exact ⟨hphase, rfl, by simp [hgathered], by simp [hgathered]⟩

/-- A formatter and its program exchange the source and the two streams over pipes of any capacity,
in any order. A program that waits for its pipes is never stuck: what it waits for can be done, or
the formatter gets on, which it cannot do for ever. The program reads a prefix of the source, and
all of it if it reads to the end. When the program has ended, the formatter gets on until it has a
result. That is the status and exactly what the program wrote, whatever happened to the source, and
it decides what is reported. -/
theorem exchange_completes_and_keeps_bytes {γ : Type} (program : Program γ) {capacity : Nat}
    (hcapacity : 0 < capacity) (source : String) {events : List Event} {state : State γ}
    (run : Runs program capacity (.start program source.toUTF8.data.toList) events state) :
    (∀ point action, state.phase = .running point → program.awaits point action →
      (∃ event after, event.isOwn ∧ Step program capacity state event after)
        ∨ ∃ reply after, Step program capacity state (.served action reply) after)
    ∧ (∀ more after, Runs program capacity state more after → (∀ event ∈ more, event.isOwn) →
      more.length ≤ state.work)
    ∧ received events <+: source.toUTF8.data.toList
    ∧ ((∃ event ∈ events, event.IsInputEnd) → received events = source.toUTF8.data.toList)
    ∧ (∀ status, state.phase = .ended status →
      (∃ more after, Runs program capacity state more after ∧ after.result?.isSome)
      ∧ ∀ more after, Runs program capacity state more after →
        more.length ≤ state.work
        ∧ (after.result? = none → ∃ event next, Step program capacity after event next))
    ∧ ∀ result, state.result? = some result →
      state.phase = .ended result.status
      ∧ result.inputFault = none
      ∧ result.output = ⟨(written .output events).toArray⟩
      ∧ result.errors = ⟨(written .errors events).toArray⟩
      ∧ ∀ (σ : Type) (command : FormatCommand) (launch : Launcher σ) (options : FormatOptions)
          (before after : σ),
        launch command.program (command.args ++ options.flags) source.toUTF8 before
          = (.ok result, after) →
        ∃ answer, FormatCommand.Reports result answer
          ∧ (command.formatter launch source options before : Except FormatError String × σ)
            = (answer, after) := by
  have hstart := State.IsOrderly.start program capacity source.toUTF8.data.toList
  have horderly := hstart.run run
  refine ⟨?_, ?_, ?_, ?_, ?_, ?_⟩
  · intro point action running awaits
    exact horderly.exists_step_of_awaits hcapacity running awaits
  · intro more after hrun own
    have hwork := hrun.length_le_work own
    omega
  · exact ⟨_, run.source_kept⟩
  · exact run.received_of_inputEnd hstart
  · intro status ended
    refine ⟨horderly.exists_result hcapacity ended, fun more after hrun => ?_⟩
    obtain ⟨hown, hended⟩ := hrun.own_of_ended ended
    have hwork := hrun.length_le_work hown
    exact ⟨by omega, (horderly.run hrun).exists_step_of_ended hcapacity hended⟩
  · intro result hresult
    obtain ⟨hphase, hinput, houtput, herrors⟩ := run.result_eq hresult
    refine ⟨hphase, hinput, houtput, herrors, ?_⟩
    intro σ command launch options before after hlaunch
    exact ⟨_, FormatCommand.reports_outcome result, FormatCommand.formatter_of_launch hlaunch⟩

/-- A program that complains and fails, and does not read. -/
def hasty : Program Bool where
  start := false
  awaits point action := point = false ∧ action = .write .errors [33]
  resume _ _ _ := true
  moves _ _ := False
  ends point status := point = true ∧ status = .code 2

/-- A run in which the program fails while the writer is still sending. -/
def hastyEvents : List Event :=
  [.writer, .served (.write .errors [33]) (.taken 1), .ended (.code 2), .writer, .reader, .reader,
    .reader, .reader]

theorem runs_hasty : ∃ state : State Bool,
    Runs hasty 1 (.start hasty "ab".toUTF8.data.toList) hastyEvents state
    ∧ state.result? = some { status := .code 2, output := .empty, errors := "!".toUTF8 } := by
  have hrun : Runs hasty 1 (.start hasty "ab".toUTF8.data.toList) [] _ := .refl
  have hrun := hrun.step (.send [97] [98] rfl rfl (by simp) rfl (by decide))
  have hrun := hrun.step
    (.serve rfl ⟨rfl, rfl⟩ (.write .errors [33] [] rfl rfl (by decide) (.inr rfl)))
  have hrun := hrun.step (.stop rfl ⟨rfl, rfl⟩)
  have hrun := hrun.step (.broken rfl (List.cons_ne_nil 98 []) rfl)
  have hrun := hrun.step (.gather .errors [33] [] rfl rfl (by simp))
  have hrun := hrun.step (.drained .errors rfl rfl rfl)
  have hrun := hrun.step (.drained .output rfl rfl rfl)
  have hrun := hrun.step (.wait rfl (fun outlet => by cases outlet <;> rfl) rfl)
  exact ⟨_, hrun, rfl⟩

/-- A launcher of programs that complain and fail. -/
def complaining : Launcher Unit := fun _ _ _ =>
  pure (.ok { status := .code 2, output := .empty, errors := "!".toUTF8 })

theorem exchange_completes_and_keeps_bytes_hasty :
    0 < 1 ∧ (∃ state, Runs hasty 1 (.start hasty "ab".toUTF8.data.toList) hastyEvents state)
    ∧ (FormatCommand.standard.formatter complaining "ab" .standard () :
        Except FormatError String × Unit) = (.error (.failed (.code 2) "!"), ()) := by
  obtain ⟨state, hrun, hresult⟩ := runs_hasty
  obtain ⟨-, -, -, -, -, hends⟩ := exchange_completes_and_keeps_bytes hasty Nat.one_pos "ab" hrun
  obtain ⟨-, -, -, -, hformatter⟩ := hends _ hresult
  obtain ⟨answer, hanswer, hformatted⟩ :=
    hformatter Unit .standard complaining .standard () () rfl
  refine ⟨Nat.one_pos, ⟨state, hrun⟩, hformatted.trans ?_⟩
  cases hanswer with
  | failed =>
    have htext : Text.trim (Text.ofUtf8Replacing "!".toUTF8) = "!" := by decide +kernel
    rw [htext]
  | unwritten success | panicked success | styled success | notText success => cases success

end Piping
end SchemaTypes
