import SchemaTypes.Proofs.EditedDocument
import SchemaTypes.Proofs.Questions

/-! The calls of the hook in a run: the questions of the document in its order, up to the first
failure, whatever is answered. -/
namespace SchemaTypes

open Steps (outcome)

variable {σ τ : Type}

/-- What a document asks about: its definitions in their order. -/
def Document.questions (document : Document) : List Question :=
  (document.definitions.getD []).flatMap fun entry => entry.2.questions.map Prod.snd

namespace Generator

/-- A definition with the type that is left for these answers. -/
def settledDefinition (container : String) (answers : String → Answers)
    (entry : String × Schema) : String × Node :=
  (entry.1, .resolved ((Node.settled container entry.2 (answers entry.1)).direct container))

theorem asks_resolve {generator : Generator σ} {mapper : Mapper σ}
    (hm : generator.mapper = some mapper) {schema : Schema} (h : schema.Distinct) :
    Asks .mapper (generator.recorded.resolve (.ofSchema schema)) (schema.questions.map Prod.snd)
      fun given node => ∀ answers : Answers,
        schema.questions.map (fun asked => answers asked.1) = given.map some →
        node = .resolved ((Node.settled generator.options.container schema answers).direct
          generator.options.container) := by
  obtain ⟨options, _, formatter⟩ := generator
  cases hm
  have happly := (Node.asks_applyMapper_noReference mapper options.container h).asking
  refine Asks.lift_bind ?_
  rw [← List.append_nil (schema.questions.map Prod.snd)]
  refine happly.bind fun given node _ hnode => .lift fun answers ha => ?_
  rw [List.append_nil] at ha
  rw [Node.resolveComposites_resolvePrimitives options.container hnode.2, hnode.1 answers ha]

theorem asks_resolveAll {generator : Generator σ} {mapper : Mapper σ}
    (hm : generator.mapper = some mapper) {definitions : List (String × Schema)}
    (h : ∀ entry ∈ definitions, entry.2.Distinct) :
    Asks .mapper
      (generator.recorded.resolveAll
        (definitions.map fun (name, schema) => (name, .ofSchema schema)))
      (Document.questions ⟨some definitions⟩)
      fun given nodes => ∀ answers : String → Answers,
        (definitions.flatMap fun entry =>
          entry.2.questions.map fun asked => answers entry.1 asked.1) = given.map some →
        nodes = definitions.map (settledDefinition generator.options.container answers) := by
  induction definitions with
  | nil => exact .pure fun answers _ => rfl
  | cons entry rest ih =>
    have hrest := ih fun entry he => h entry (by simp [he])
    refine (asks_resolve hm (h entry (by simp))).bind fun given node count hnode => ?_
    show Asks .mapper (generator.recorded.resolveAll _ >>= fun nodes => pure _) _ _
    rw [bind_pure_comp]
    refine hrest.map fun others nodes _ hnodes answers ha => ?_
    rw [List.flatMap_cons, List.map_append] at ha
    obtain ⟨hhere, hothers⟩ := List.append_inj ha (by simpa using count.symm)
    rw [hnode (answers entry.1) hhere, hnodes answers hothers]
    rfl

theorem asks_source {generator : Generator σ} {mapper : Mapper σ}
    (hm : generator.mapper = some mapper) {definitions : List (String × Schema)}
    (h : ∀ entry ∈ definitions, entry.2.Distinct) :
    Asks .mapper (generator.recorded.source ⟨some definitions⟩)
      (Document.questions ⟨some definitions⟩) fun _ _ => True := by
  have hnodes := (asks_resolveAll hm h).and_ensures (ensures_resolveAll generator.recorded _)
  refine Asks.lift_bind ?_
  rw [← List.append_nil (Document.questions _)]
  refine hnodes.bind fun given nodes _ hresolved => ?_
  obtain ⟨text, ht⟩ := members_eq_ok hresolved.2
  simp only [Declaration.file, ht]
  exact .pure trivial

/-- The calls of the hook in a run, in their order. -/
def calls (generator : Generator σ) (document : Document) (state : σ) : Transcript :=
  (outcome (generator.recorded.generate document) (state, [])).value.2.2

/-- A run asks what its document asks about: everything, or what stands before a question that the
hook fails at, and that question. Only then is its error one of the hook. -/
theorem calls_of_some {generator : Generator σ} {mapper : Mapper σ}
    (hm : generator.mapper = some mapper) {document : Document}
    (h : ∀ definitions, document.definitions = some definitions →
      ∀ entry ∈ definitions, entry.2.Distinct) (state : σ) :
    (∃ answers, answers.length = document.questions.length
      ∧ generator.calls document state = exchanges document.questions answers
      ∧ ∀ message, (outcome (generator.generate document) state).value.1 ≠ .error (.mapper message))
    ∨ ∃ asked question rest answers message, document.questions = asked ++ question :: rest
      ∧ answers.length = asked.length
      ∧ generator.calls document state
        = exchanges asked answers ++ [⟨question, .error message⟩]
      ∧ (outcome (generator.generate document) state).value.1 = .error (.mapper message) := by
  obtain ⟨_ | definitions⟩ := document
  · exact .inl ⟨[], rfl, rfl, fun message he => by cases he⟩
  · have hresult : (outcome (generator.generate ⟨some definitions⟩) state).value.1
        = (outcome (generator.recorded.generate ⟨some definitions⟩) (state, [])).value.1 := by
      rw [← outcome_recorded_generate generator ⟨some definitions⟩ state []]
      rfl
    have hsource := asks_source hm (h definitions rfl) state []
    unfold calls
    rw [hresult, generate, Steps.value_outcome_bind]
    generalize (outcome (generator.recorded.source ⟨some definitions⟩) (state, [])).value = run
      at hsource ⊢
    obtain ⟨result, after, transcript⟩ := run
    cases hsource with
    | @failed message asked rest question answers here count =>
      exact .inr ⟨asked, question, rest, answers, message, here, count, rfl, rfl⟩
    | @answered source answers count =>
      refine .inl ⟨answers, count, ?_, fun message he => ?_⟩
      · exact congrArg (·.value.2.2) (outcome_formatting
          (generator.recorded.formatter source .standard) (after, [] ++ exchanges _ answers))
      · have hstyled : Ensures (formatting (generator.recorded.formatter source .standard))
            (fun _ => True) (fun error => ∃ e, error = .format e) fun _ => True :=
          ensures_formatting
        obtain ⟨error, hformat⟩ := hstyled.of_error he
        cases hformat

/-- As long as the hook does not fail, its calls are those that the document asks for. -/
theorem map_question_calls {generator : Generator σ} {mapper : Mapper σ}
    (hm : generator.mapper = some mapper) {document : Document}
    (h : ∀ definitions, document.definitions = some definitions →
      ∀ entry ∈ definitions, entry.2.Distinct) (state : σ) {i : Nat}
    (hi : ∀ exchange ∈ (generator.calls document state).take i, exchange.result.isOk) :
    (generator.calls document state)[i]?.map Exchange.question = document.questions[i]? := by
  rcases calls_of_some hm h state with ⟨answers, count, hcalls, -⟩
    | ⟨asked, question, rest, answers, message, here, count, hcalls, -⟩
  · rw [hcalls, ← List.getElem?_map, map_question_exchanges count]
  · rw [hcalls] at hi
    have hlength : (exchanges asked answers).length = asked.length := by simp [exchanges, count]
    have hbound : i ≤ asked.length := by
      by_contra hlt
      rw [List.take_of_length_le (by rw [List.length_append, hlength]; exact Nat.lt_of_not_le hlt)]
        at hi
      have hlast := hi ⟨question, .error message⟩ (List.mem_append_right _ List.mem_cons_self)
      cases hlast
    rw [hcalls, here, ← List.getElem?_map, List.map_append, map_question_exchanges count]
    rcases Nat.lt_or_eq_of_le hbound with hlt | rfl
    · rw [List.getElem?_append_left hlt, List.getElem?_append_left hlt]
    · simp

/-- What a hook is asked does not depend on what it answers. With a transcript beside its state the
run is the same, and its calls are about what the document asks for, in document order: all of it,
or all up to a question at which the hook fails, with that error for the run and no call after it.
So two runs on one document, with any hooks, agree on each call before which none has failed. -/
theorem hook_calls_do_not_depend_on_answers (generator : Generator σ) (mapper : Mapper σ)
    (other : Generator τ) (hook : Mapper τ) (document : Document)
    (h : ∀ definitions, document.definitions = some definitions →
      ∀ entry ∈ definitions, entry.2.Distinct) (state : σ) (start : τ) :
    let run := { generator with mapper := some mapper }
    let rerun := { other with mapper := some hook }
    (fun ends => (ends.1, ends.2.1)) <$> outcome (run.recorded.generate document) (state, [])
        = outcome (run.generate document) state
    ∧ ((∃ answers, answers.length = document.questions.length
        ∧ run.calls document state = exchanges document.questions answers
        ∧ ∀ message, (outcome (run.generate document) state).value.1 ≠ .error (.mapper message))
      ∨ ∃ asked question rest answers message, document.questions = asked ++ question :: rest
        ∧ answers.length = asked.length
        ∧ run.calls document state = exchanges asked answers ++ [⟨question, .error message⟩]
        ∧ (outcome (run.generate document) state).value.1 = .error (.mapper message))
    ∧ ∀ i, (∀ exchange ∈ (run.calls document state).take i, exchange.result.isOk) →
      (∀ exchange ∈ (rerun.calls document start).take i, exchange.result.isOk) →
      (run.calls document state)[i]?.map Exchange.question
        = (rerun.calls document start)[i]?.map Exchange.question := by
  intro run rerun
  have hrun : run.mapper = some mapper := rfl
  have hrerun : rerun.mapper = some hook := rfl
  refine ⟨outcome_recorded_generate run document state [], calls_of_some hrun h state,
    fun i hfirst hsecond => ?_⟩
  rw [map_question_calls hrun h state hfirst, map_question_calls hrerun h start hsecond]

/-- The first answer of `countingHook` makes an object of a date that it is asked about; the second
question is that of the hook that changes nothing. -/
theorem hook_calls_do_not_depend_on_answers_pet :
    (∀ entry ∈ petDefinitions, entry.2.Distinct)
    ∧ (calls { mapper := some countingHook } ⟨some petDefinitions⟩ 0)[1]?.map Exchange.question
      = (calls { mapper := some .identity } ⟨some petDefinitions⟩ ())[1]?.map Exchange.question
    ∧ (calls { mapper := some .identity } ⟨some petDefinitions⟩ ())[1]?.map Exchange.question
      = some ⟨some "string", false, some "Tag", none, .primitive⟩ := by
  have hdistinct : ∀ definitions, some petDefinitions = some definitions →
      ∀ entry ∈ definitions, entry.2.Distinct := by
    intro definitions hd
    cases hd
    exact petDefinitions_distinct
  have hruns := (hook_calls_do_not_depend_on_answers {} countingHook {} .identity
    ⟨some petDefinitions⟩ hdistinct 0 ()).2.2 1
  exact ⟨petDefinitions_distinct, hruns (by decide +kernel) (by decide +kernel), by decide +kernel⟩

end Generator
end SchemaTypes
