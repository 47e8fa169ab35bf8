import SchemaTypes.Proofs.Completeness

/-! What a hook is asked and what it answers. A transcript of this is kept beside the state of a
run, and steps are described by the questions that they ask in order. -/
namespace SchemaTypes

open Steps (outcome)

variable {ε σ τ α β : Type}

/-- What a hook is asked about a property, without what lies below the property. -/
structure Question where
  type : Option String
  optional : Bool
  description : Option String
  format : Option String
  shape : Shape
deriving DecidableEq, Repr

def Question.ofProperty (property : SchemaNode) (context : PropertyContext) : Question :=
  ⟨context.type, context.optional, context.description, property.format, property.shape⟩

/-- A question with the answer, or with the message of the failure. -/
structure Exchange where
  question : Question
  result : Except String PropertyMapping

abbrev Transcript := List Exchange

/-- The hook with a transcript of its calls. -/
def Mapper.recorded (mapper : Mapper σ) : Mapper (σ × Transcript) :=
  fun property context (state, transcript) =>
    let (result, after) := (mapper property context state : Except String PropertyMapping × σ)
    (result, after, transcript ++ [⟨.ofProperty property context, result⟩])

/-- The formatter beside a transcript, which it leaves alone. -/
def Formatter.besideTranscript (formatter : Formatter σ) : Formatter (σ × Transcript) :=
  fun source options (state, transcript) =>
    let (result, after) := (formatter source options state : Except FormatError String × σ)
    (result, after, transcript)

def Generator.recorded (generator : Generator σ) : Generator (σ × Transcript) where
  options := generator.options
  mapper := generator.mapper.map Mapper.recorded
  formatter := generator.formatter.besideTranscript

/-! ### The same run over another state -/

/-- Seen through `view` the steps are the others: the same result, the same state, and the same
notices. -/
def Mirrors (view : τ → σ) (steps : Steps ε τ α) (others : Steps ε σ α) : Prop :=
  ∀ state, (fun run => (run.1, view run.2)) <$> outcome steps state = outcome others (view state)

/-- Seen through `view` the hook answers as the other one does. -/
def Mapper.Mirrors (view : τ → σ) (mapper : Mapper τ) (other : Mapper σ) : Prop :=
  ∀ property context state, Prod.map id view
    (mapper property context state : Except String PropertyMapping × τ)
      = other property context (view state)

/-- Seen through `view` the formatter styles as the other one does. -/
def Formatter.Mirrors (view : τ → σ) (formatter : Formatter τ) (other : Formatter σ) : Prop :=
  ∀ source options state, Prod.map id view
    (formatter source options state : Except FormatError String × τ)
      = other source options (view state)

/-- Seen through `view` the generator asks as the other one does, for the same container. -/
structure Generator.AsksLike (view : τ → σ) (generator : Generator τ) (other : Generator σ) :
    Prop where
  options : generator.options = other.options
  mapper : Option.Rel (Mapper.Mirrors view) generator.mapper other.mapper

namespace Mirrors

variable {view : τ → σ}

theorem pure (a : α) : Mirrors view (Pure.pure a : Steps ε τ α) (Pure.pure a) :=
  fun _ => rfl

theorem throw (e : ε) :
    Mirrors view (MonadExcept.throw e : Steps ε τ α) (MonadExcept.throw e) :=
  fun _ => rfl

theorem lift (x : Noted α) : Mirrors view (liftM x : Steps ε τ α) (liftM x) := by
  intro state
  rw [Steps.outcome_lift, Steps.outcome_lift, Functor.map_map]

theorem bind {steps : Steps ε τ α} {others : Steps ε σ α} {next : α → Steps ε τ β}
    {after : α → Steps ε σ β} (h : Mirrors view steps others)
    (hn : ∀ a, Mirrors view (next a) (after a)) :
    Mirrors view (steps >>= next) (others >>= after) := by
  intro state
  rw [Steps.outcome_bind, Steps.outcome_bind, map_bind, ← h state, bind_map_left]
  refine bind_congr fun run => ?_
  obtain ⟨e | a, last⟩ := run
  · rfl
  · exact hn a last

theorem map {steps : Steps ε τ α} {others : Steps ε σ α} (f : α → β)
    (h : Mirrors view steps others) : Mirrors view (f <$> steps) (f <$> others) := by
  rw [← bind_pure_comp, ← bind_pure_comp]
  exact h.bind fun a => .pure (f a)

theorem mapM {f : α → Steps ε τ β} {g : α → Steps ε σ β} {as : List α}
    (h : ∀ a ∈ as, Mirrors view (f a) (g a)) : Mirrors view (as.mapM f) (as.mapM g) := by
  induction as with
  | nil => exact .pure []
  | cons a rest ih =>
    rw [List.mapM_cons, List.mapM_cons]
    refine (h a (by simp)).bind fun b => ?_
    exact (ih fun a ha => h a (by simp [ha])).bind fun bs => .pure (b :: bs)

theorem mapChildrenM {f : α → Steps ε τ β} {g : α → Steps ε σ β} {schema : Keywords α}
    (h : ∀ child ∈ schema.children, Mirrors view (f child) (g child)) :
    Mirrors view (schema.mapChildrenM f) (schema.mapChildrenM g) := by
  rw [Keywords.mapChildrenM_eq, Keywords.mapChildrenM_eq]
  exact (mapM h).map _

section Hook

variable {mapper : Mapper τ} {other : Mapper σ}

theorem ask (h : mapper.Mirrors view other) (property : SchemaNode) (context : PropertyContext) :
    Mirrors view (mapper.ask property context) (other.ask property context) := by
  intro state
  exact congrArg (fun run => (⟨run, []⟩ : Noted (Except String PropertyMapping × σ)))
    (h property context state)

theorem mapProperties (h : mapper.Mirrors view other) (container : String) (owner : Node.Owner)
    (entries : List (String × Node)) :
    Mirrors view (Node.mapProperties mapper container owner entries)
      (Node.mapProperties other container owner entries) := by
  induction entries generalizing owner with
  | nil => exact .pure _
  | cons entry rest ih =>
    obtain ⟨name, property | type⟩ := entry
    · refine (ask h property _).bind fun mapping => ?_
      exact (lift _).bind fun node => (ih _).bind fun result => .pure _
    · exact (ih owner).bind fun result => .pure _

theorem mapObject (h : mapper.Mirrors view other) (container : String) (schema : SchemaNode) :
    Mirrors view (Node.mapObject mapper container schema)
      (Node.mapObject other container schema) := by
  unfold Node.mapObject
  split
  · exact (mapProperties h container _ _).bind fun result => .pure _
  · exact .pure _

theorem applyMapper (h : mapper.Mirrors view other) (container : String) (node : Node) :
    Mirrors view (Node.applyMapper mapper container node)
      (Node.applyMapper other container node) := by
  induction node using Node.induction with
  | resolved type => exact .pure _
  | pending schema ih =>
    rw [Node.applyMapper, Node.applyMapper, Node.rebuildM_pending, Node.rebuildM_pending,
      pure_bind, pure_bind]
    exact (mapChildrenM ih).bind fun rebuilt => mapObject h container rebuilt

end Hook

theorem asking {steps : Asking τ α} {others : Asking σ α} (h : Mirrors view steps others) :
    Mirrors view (Generator.asking steps) (Generator.asking others) := by
  intro state
  rw [Generator.outcome_asking, Generator.outcome_asking, ← h state, Functor.map_map,
    Functor.map_map]

theorem formatting {formatter : Formatter τ} {other : Formatter σ}
    (h : formatter.Mirrors view other) (source : String) (options : FormatOptions) :
    Mirrors view (Generator.formatting (formatter source options))
      (Generator.formatting (other source options)) := by
  intro state
  rw [Generator.outcome_formatting, Generator.outcome_formatting, map_pure]
  exact congrArg (fun run : Except FormatError String × σ =>
    (Pure.pure (run.1.mapError GenerateError.format, run.2) : Noted _)) (h source options state)

section Run

variable {generator : Generator τ} {other : Generator σ}

theorem resolve (h : generator.AsksLike view other) (node : Node) :
    Mirrors view (generator.resolve node) (other.resolve node) := by
  obtain ⟨_, hook, _⟩ := generator
  obtain ⟨_, hook', _⟩ := other
  obtain ⟨rfl, hmapper⟩ := h
  refine (lift _).bind fun node => ?_
  cases hmapper with
  | none => exact (Mirrors.pure _).bind fun node => lift _
  | some hook => exact (asking (applyMapper hook _ node)).bind fun node => lift _

theorem resolveAll (h : generator.AsksLike view other) (definitions : List (String × Node)) :
    Mirrors view (generator.resolveAll definitions) (other.resolveAll definitions) := by
  induction definitions with
  | nil => exact .pure _
  | cons entry rest ih =>
    exact (resolve h entry.2).bind fun node => ih.bind fun nodes => .pure _

theorem source (h : generator.AsksLike view other) (document : Document) :
    Mirrors view (generator.source document) (other.source document) := by
  obtain ⟨_ | definitions⟩ := document
  · exact .throw _
  · refine (lift _).bind fun _ => (resolveAll h _).bind fun nodes => ?_
    rw [h.options]
    cases Declaration.file nodes other.options.container other.options.banner with
    | ok text => exact .pure text
    | error name => exact .throw _

theorem generate (h : generator.AsksLike view other)
    (hf : generator.formatter.Mirrors view other.formatter) (document : Document) :
    Mirrors view (generator.generate document) (other.generate document) :=
  (Mirrors.source h document).bind fun text => formatting hf text _

end Run

end Mirrors

namespace Generator

theorem recorded_asksLike (generator : Generator σ) :
    generator.recorded.AsksLike Prod.fst generator := by
  obtain ⟨_, _ | mapper, _⟩ := generator
  · exact ⟨rfl, .none⟩
  · exact ⟨rfl, .some fun _ _ _ => rfl⟩

/-- Without its transcript a recorded run is the run. -/
theorem outcome_recorded_resolveAll (generator : Generator σ) (definitions : List (String × Node))
    (state : σ) (before : Transcript) :
    (fun run => (run.1, run.2.1)) <$>
        outcome (generator.recorded.resolveAll definitions) (state, before)
      = outcome (generator.resolveAll definitions) state :=
  Mirrors.resolveAll generator.recorded_asksLike definitions (state, before)

theorem outcome_recorded_generate (generator : Generator σ) (document : Document) (state : σ)
    (before : Transcript) :
    (fun run => (run.1, run.2.1)) <$>
        outcome (generator.recorded.generate document) (state, before)
      = outcome (generator.generate document) state :=
  Mirrors.generate generator.recorded_asksLike (fun _ _ _ => rfl) document (state, before)

end Generator

/-! ### Questions in their order -/

/-- The exchanges of questions that are all answered. -/
def exchanges (questions : List Question) (answers : List PropertyMapping) : Transcript :=
  questions.zipWith (fun question answer => ⟨question, .ok answer⟩) answers

theorem exchanges_append {questions : List Question} {answers : List PropertyMapping}
    (h : answers.length = questions.length) (more : List Question)
    (others : List PropertyMapping) :
    exchanges (questions ++ more) (answers ++ others)
      = exchanges questions answers ++ exchanges more others :=
  List.zipWith_append h.symm

theorem map_question_exchanges {questions : List Question} {answers : List PropertyMapping}
    (h : answers.length = questions.length) :
    (exchanges questions answers).map Exchange.question = questions := by
  apply List.ext_getElem <;> simp [exchanges, h]

theorem map_result_exchanges {questions : List Question} {answers : List PropertyMapping}
    (h : answers.length = questions.length) :
    (exchanges questions answers).map Exchange.result = answers.map .ok := by
  apply List.ext_getElem <;> simp [exchanges, h]

/-- What was written down is dealt out to the elements in order. -/
inductive Dealt {κ : Type} (good : α → List κ → β → Prop) : List α → List κ → List β → Prop
  | nil : Dealt good [] [] []
  | cons {a : α} {as : List α} {calls others : List κ} {b : β} {bs : List β}
      (head : good a calls b) (tail : Dealt good as others bs) :
    Dealt good (a :: as) (calls ++ others) (b :: bs)

/-- How steps can end that ask these questions in order: all of them are answered, or one fails
after those before it are answered, and no other is asked. -/
inductive Ends (failure : String → ε) (questions : List Question)
    (good : List PropertyMapping → α → Prop) (before : Transcript) : Except ε α → Transcript → Prop
  | answered {a : α} (answers : List PropertyMapping) (count : answers.length = questions.length)
      (h : good answers a) :
    Ends failure questions good before (.ok a) (before ++ exchanges questions answers)
  | failed {message : String} (asked rest : List Question) (question : Question)
      (answers : List PropertyMapping) (here : questions = asked ++ question :: rest)
      (count : answers.length = asked.length) :
    Ends failure questions good before (.error (failure message))
      (before ++ (exchanges asked answers ++ [⟨question, .error message⟩]))

/-- The steps ask the questions in order, and a value they end with is good for the answers. -/
def Asks (failure : String → ε) (steps : Steps ε (σ × Transcript) α) (questions : List Question)
    (good : List PropertyMapping → α → Prop) : Prop :=
  ∀ state before, Ends failure questions good before (outcome steps (state, before)).value.1
    (outcome steps (state, before)).value.2.2

namespace Asks

variable {failure : String → ε} {questions more : List Question}
  {good : List PropertyMapping → α → Prop} {better : List PropertyMapping → β → Prop}

theorem pure {a : α} (h : good [] a) :
    Asks failure (Pure.pure a : Steps ε (σ × Transcript) α) [] good := by
  intro state before
  simpa [exchanges] using
    (Ends.answered [] rfl h : Ends failure [] good before (.ok a) (before ++ exchanges [] []))

theorem lift {x : Noted α} (h : good [] x.value) :
    Asks failure (liftM x : Steps ε (σ × Transcript) α) [] good := by
  intro state before
  rw [Steps.value_outcome_lift]
  simpa [exchanges] using
    (Ends.answered [] rfl h : Ends failure [] good before (.ok x.value) (before ++ exchanges [] []))

theorem bind {steps : Steps ε (σ × Transcript) α} {next : α → Steps ε (σ × Transcript) β}
    (h : Asks failure steps questions good)
    (hn : ∀ answers a, answers.length = questions.length → good answers a →
      Asks failure (next a) more fun others => better (answers ++ others)) :
    Asks failure (steps >>= next) (questions ++ more) better := by
  intro state before
  have hsteps := h state before
  rw [Steps.value_outcome_bind]
  generalize (outcome steps (state, before)).value = run at hsteps ⊢
  obtain ⟨result, after, transcript⟩ := run
  cases hsteps with
  | failed asked rest question answers here count =>
    refine .failed asked (rest ++ more) question answers ?_ count
    rw [here, List.append_assoc, List.cons_append]
  | @answered a answers count ha =>
    have hnext := hn answers a count ha after (before ++ exchanges questions answers)
    show Ends failure (questions ++ more) better before
      (outcome (next a) (after, before ++ exchanges questions answers)).value.1
      (outcome (next a) (after, before ++ exchanges questions answers)).value.2.2
    generalize (outcome (next a) (after, before ++ exchanges questions answers)).value = run
      at hnext ⊢
    obtain ⟨result, last, transcript⟩ := run
    cases hnext with
    | @answered b others hcount hb =>
      show Ends failure (questions ++ more) better before (.ok b)
        (before ++ exchanges questions answers ++ exchanges more others)
      rw [List.append_assoc, ← exchanges_append count]
      exact .answered (answers ++ others) (by simp [count, hcount]) hb
    | failed asked rest question others here hcount =>
      show Ends failure (questions ++ more) better before (.error _) (before
        ++ exchanges questions answers ++ (exchanges asked others ++ [⟨question, .error _⟩]))
      rw [List.append_assoc, ← List.append_assoc (exchanges questions answers),
        ← exchanges_append count]
      exact .failed (questions ++ asked) rest question (answers ++ others) (by simp [here])
        (by simp [count, hcount])

/-- A step that asks nothing hands on to what follows its value. -/
theorem lift_bind {x : Noted β} {next : β → Steps ε (σ × Transcript) α}
    (h : Asks failure (next x.value) questions good) :
    Asks failure ((liftM x : Steps ε (σ × Transcript) β) >>= next) questions good := by
  intro state before
  rw [Steps.value_outcome_bind, Steps.value_outcome_lift]
  exact h state before

theorem weaken {steps : Steps ε (σ × Transcript) α} {fine : List PropertyMapping → α → Prop}
    (h : Asks failure steps questions good)
    (hg : ∀ answers a, answers.length = questions.length → good answers a → fine answers a) :
    Asks failure steps questions fine := by
  intro state before
  have hsteps := h state before
  generalize (outcome steps (state, before)).value = run at hsteps ⊢
  obtain ⟨result, after, transcript⟩ := run
  cases hsteps with
  | failed asked rest question answers here count =>
    exact .failed asked rest question answers here count
  | answered answers count ha => exact .answered answers count (hg _ _ count ha)

theorem map {steps : Steps ε (σ × Transcript) α} {f : α → β}
    (h : Asks failure steps questions good)
    (hf : ∀ answers a, answers.length = questions.length → good answers a →
      better answers (f a)) :
    Asks failure (f <$> steps) questions better := by
  rw [← bind_pure_comp, ← List.append_nil questions]
  refine h.bind fun answers a count ha => .pure ?_
  rw [List.append_nil]
  exact hf answers a count ha

theorem ask (mapper : Mapper σ) (property : SchemaNode) (context : PropertyContext) :
    Asks id (mapper.recorded.ask property context) [.ofProperty property context]
      fun answers mapping => answers = [mapping] := by
  intro state before
  have houtcome : (outcome (mapper.recorded.ask property context) (state, before)).value
      = let run := (mapper property context state : Except String PropertyMapping × σ)
        (run.1, run.2, before ++ [⟨.ofProperty property context, run.1⟩]) := rfl
  rw [houtcome]
  rcases (mapper property context state : Except String PropertyMapping × σ) with
    ⟨message | mapping, after⟩
  · exact .failed [] [] (.ofProperty property context) [] rfl rfl
  · exact .answered [mapping] rfl rfl

theorem asking {steps : Asking (σ × Transcript) α} (h : Asks id steps questions good) :
    Asks .mapper (Generator.asking steps) questions good := by
  intro state before
  have hsteps := h state before
  rw [Generator.value_outcome_asking]
  generalize (outcome steps (state, before)).value = run at hsteps ⊢
  obtain ⟨result, after, transcript⟩ := run
  cases hsteps with
  | failed asked rest question answers here count =>
    exact .failed asked rest question answers here count
  | answered answers count ha => exact .answered answers count ha

theorem and_ensures {steps : Steps ε (σ × Transcript) α} {fine : α → Prop} {bad : ε → Prop}
    {said : Notice → Prop} (h : Asks failure steps questions good)
    (he : Ensures steps fine bad said) :
    Asks failure steps questions fun answers a => good answers a ∧ fine a := by
  intro state before
  have hsteps := h state before
  have hfine := (he (state, before)).2
  generalize (outcome steps (state, before)).value = run at hsteps hfine ⊢
  obtain ⟨result, after, transcript⟩ := run
  cases hsteps with
  | failed asked rest question answers here count =>
    exact .failed asked rest question answers here count
  | answered answers count ha => exact .answered answers count ⟨ha, hfine⟩

theorem mapM {f : α → Steps ε (σ × Transcript) β} {questionsOf : α → List Question}
    {good : α → List PropertyMapping → β → Prop} {as : List α}
    (h : ∀ a ∈ as, Asks failure (f a) (questionsOf a) (good a)) :
    Asks failure (as.mapM f) (as.flatMap questionsOf) (Dealt (fun a answers b =>
      answers.length = (questionsOf a).length ∧ good a answers b) as) := by
  induction as with
  | nil => exact .pure .nil
  | cons a rest ih =>
    rw [List.mapM_cons, List.flatMap_cons]
    refine (h a (by simp)).bind fun answers b count hb => ?_
    rw [bind_pure_comp]
    refine (ih fun a ha => h a (by simp [ha])).map fun others bs _ hbs => ?_
    exact .cons ⟨count, hb⟩ hbs

end Asks
end SchemaTypes
