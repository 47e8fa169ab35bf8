import SchemaTypes.Proofs.HookCalls
import SchemaTypes.Proofs.RunTypes

/-! The calls of both hooks of a run in one log: the formatter comes after all questions, once, and
not at all where a question fails. -/
namespace SchemaTypes

open Steps (outcome)

variable {σ : Type}

/-- A call of one of the hooks of a run. -/
inductive Call where
  | asked (exchange : Exchange)
  | styled (source : String) (options : FormatOptions) (result : Except FormatError String)

/-- The hook with a log of its calls. -/
def Mapper.logged (mapper : Mapper σ) : Mapper (σ × List Call) :=
  fun property context (state, log) =>
    let (result, after) := (mapper property context state : Except String PropertyMapping × σ)
    (result, after, log ++ [.asked ⟨.ofProperty property context, result⟩])

/-- The formatter with a log of its calls. -/
def Formatter.logged (formatter : Formatter σ) : Formatter (σ × List Call) :=
  fun source options (state, log) =>
    let (result, after) := (formatter source options state : Except FormatError String × σ)
    (result, after, log ++ [.styled source options result])

namespace Generator

/-- Both hooks keep one log. -/
def logged (generator : Generator σ) : Generator (σ × List Call) where
  options := generator.options
  mapper := generator.mapper.map Mapper.logged
  formatter := generator.formatter.logged

/-- The calls of both hooks in a run, in their order. -/
def log (generator : Generator σ) (document : Document) (state : σ) : List Call :=
  (outcome (generator.logged.generate document) (state, [])).value.2.2

/-- The generator that leaves its source as it is. -/
def unstyled (generator : Generator σ) : Generator σ := { generator with formatter := .identity }

/-- What a document asks the hook of the generator: nothing where there is no hook. -/
def questions (generator : Generator σ) (document : Document) : List Question :=
  if generator.mapper.isSome then document.questions else []

theorem logged_asksLike (generator : Generator σ) :
    generator.logged.AsksLike Prod.fst generator := by
  obtain ⟨_, _ | mapper, _⟩ := generator
  · exact ⟨rfl, .none⟩
  · exact ⟨rfl, .some fun _ _ _ => rfl⟩

/-- Up to the source a log is a transcript. -/
theorem recorded_asksLike_logged (generator : Generator σ) :
    generator.recorded.AsksLike (Prod.map id (List.map .asked)) generator.logged := by
  obtain ⟨_, _ | mapper, _⟩ := generator
  · exact ⟨rfl, .none⟩
  · refine ⟨rfl, .some fun property context (state, before) => ?_⟩
    show (_, _, (before ++ [_]).map Call.asked) = (_, _, before.map Call.asked ++ [_])
    rw [List.map_append]
    rfl

theorem resolveAll_unstyled (generator : Generator σ) (definitions : List (String × Node)) :
    generator.unstyled.resolveAll definitions = generator.resolveAll definitions := by
  induction definitions with
  | nil => rfl
  | cons entry rest ih =>
    rw [resolveAll, resolveAll, ih]
    rfl

theorem source_unstyled (generator : Generator σ) (document : Document) :
    generator.unstyled.source document = generator.source document := by
  obtain ⟨_ | definitions⟩ := document
  · rfl
  · simp only [source, sourceOf, resolveAll_unstyled]
    rfl

theorem generate_unstyled (generator : Generator σ) (document : Document) :
    generator.unstyled.generate document = generator.source document := by
  rw [generate, source_unstyled]
  exact bind_pure (generator.source document)

theorem asks_source_questions (generator : Generator σ) {definitions : List (String × Schema)}
    (h : ∀ entry ∈ definitions, entry.2.Distinct) :
    Asks .mapper (generator.recorded.source ⟨some definitions⟩)
      (generator.questions ⟨some definitions⟩) fun _ _ => True := by
  cases hm : generator.mapper with
  | some mapper =>
    have hquestions : generator.questions ⟨some definitions⟩
        = Document.questions ⟨some definitions⟩ := if_pos (by rw [hm]; rfl)
    rw [hquestions]
    exact asks_source hm h
  | none =>
    have hquestions : generator.questions ⟨some definitions⟩ = [] := if_neg (by rw [hm]; simp)
    have hrecorded : generator.recorded.mapper = none := congrArg (Option.map Mapper.recorded) hm
    intro state before
    rw [hquestions, value_source_of_none hrecorded]
    have hends (source : String) : Ends GenerateError.mapper [] (fun _ _ => True) before (.ok source)
        (before ++ exchanges [] []) := .answered [] rfl trivial
    simpa [exchanges] using hends _

/-- The source goes through the formatter, an error past it. -/
theorem value_generate (generator : Generator σ) (document : Document) (state : σ) :
    (outcome (generator.generate document) state).value
      = match (outcome (generator.source document) state).value with
        | (.ok source, middle) =>
          let styled : Except FormatError String × σ :=
            generator.formatter source .standard middle
          (styled.1.mapError .format, styled.2)
        | (.error error, middle) => (.error error, middle) := by
  rw [generate, Steps.value_outcome_bind]
  rcases (outcome (generator.source document) state).value with ⟨error | source, middle⟩
  · rfl
  · exact congrArg Noted.value (outcome_formatting (generator.formatter source .standard) middle)

/-- Beside its transcript the source is the source, and the log is the transcript. -/
theorem value_source_of_recorded {generator : Generator σ} {document : Document} {state middle : σ}
    {result : Except GenerateError String} {transcript : Transcript}
    (h : (outcome (generator.recorded.source document) (state, [])).value
      = (result, middle, transcript)) :
    (outcome (generator.source document) state).value = (result, middle)
    ∧ (outcome (generator.logged.source document) (state, [])).value
      = (result, middle, transcript.map .asked) := by
  have hsource := Mirrors.source generator.recorded_asksLike document (state, [])
  have hlogged := Mirrors.source generator.recorded_asksLike_logged document (state, [])
  constructor
  · show (outcome (generator.source document) (state, ([] : Transcript)).1).value = _
    rw [← hsource, Noted.value_map, h]
  · show (outcome (generator.logged.source document)
      (Prod.map id (List.map Call.asked) (state, []))).value = _
    rw [← hlogged, Noted.value_map, h]
    rfl

/-- A hook that leaves properties as they are, and is tired after so many calls. -/
def tiringHook (limit : Nat) : Mapper Nat := fun _ context calls =>
  (if calls < limit then .ok (.ofContext context) else .error "tired", calls + 1)

/-- A formatter that writes the number of calls so far in front of the source. -/
def numberingFormatter : Formatter Nat := fun source _ calls =>
  (.ok (toString calls ++ source), calls + 1)

def tiringGenerator (limit : Nat) : Generator Nat where
  mapper := some (tiringHook limit)
  formatter := numberingFormatter

end Generator
end SchemaTypes
