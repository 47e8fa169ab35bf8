import SchemaTypes.Proofs.RevisedTree

/-! Two passes with hooks, one after the other. What the first hook answers about a property is what
the second one is told about it, and required names follow the last answer. -/
namespace SchemaTypes

open Steps (outcome)

/-- What a question says of the answer to an earlier one about the same property, which was of this
type then. -/
structure Recalls (asked : Option String) (answer : PropertyMapping) (again : Question) : Prop where
  optional : again.optional = answer.optional
  description : again.description = answer.description
  kept : answer.type = asked ∨ answer.type = none → again.type = answer.type
  known : ∀ text, answer.type = some text → answer.type ≠ asked →
    Primitive.isKnownType (Text.trim text) → again.type = some (Text.trim text)
  fragment : ∀ text fragment, answer.type = some text → answer.type ≠ asked →
    Fragment.ofText text = .schema fragment → again.type = fragment.type

/-- The answer is text of the target language, or a schema with a reference, and not this type. -/
def PropertyMapping.Withdraws (mapping : PropertyMapping) (type : Option String) : Prop :=
  ∃ text, mapping.type = some text ∧ mapping.type ≠ type
    ∧ ((∃ kept, Fragment.ofText text = .verbatim kept)
      ∨ ∃ fragment, Fragment.ofText text = .schema fragment ∧ fragment.ref.isSome)

namespace Node

/-- A schema that an answer leaves is as the answer says. -/
theorem recalls_of_answered {container : String} {property new : SchemaNode}
    {answer : PropertyMapping} (h : (answered container property answer).value = .pending new)
    {again : Question} (type : again.type = new.type)
    (description : again.description = new.description)
    (optional : again.optional = answer.optional) : Recalls property.type answer again := by
  have hanswered := answerLeaves_answered container property answer
  rw [h] at hanswered
  generalize hnew : pending new = node at hanswered
  cases hanswered with
  | same hsame =>
    cases hnew
    constructor
    case optional => exact optional
    case description => exact description
    case kept =>
      intro _
      exact type.trans hsame.symm
    case known =>
      intro _ _ hne
      exact absurd hsame hne
    case fragment =>
      intro _ _ _ hne
      exact absurd hsame hne
  | untyped hne hnone =>
    cases hnew
    constructor
    case optional => exact optional
    case description => exact description
    case kept =>
      intro _
      exact type.trans hnone.symm
    case known => simp [hnone]
    case fragment => simp [hnone]
  | @known text hne hsome hknown =>
    cases hnew
    have hread := Fragment.ofText_of_isKnownType hknown
    constructor
    case optional => exact optional
    case description => exact description
    case kept =>
      rintro (hsame | hnone)
      · exact absurd hsame hne
      · simp [hsome] at hnone
    case known =>
      intro other hother _ _
      cases hsome.symm.trans hother
      exact type
    case fragment =>
      intro other schema hother _ hschema
      cases hsome.symm.trans hother
      cases hread.symm.trans hschema
  | @fragment text fragment hne hsome hread =>
    obtain rfl := eq_of_loaded_eq_pending hnew.symm
    constructor
    case optional => exact optional
    case description => exact description
    case kept =>
      rintro (hsame | hnone)
      · exact absurd hsame hne
      · simp [hsome] at hnone
    case known =>
      intro other hother _ hknown
      cases hsome.symm.trans hother
      cases hread.symm.trans (Fragment.ofText_of_isKnownType hknown)
    case fragment =>
      intro other schema hother _ hschema
      cases hsome.symm.trans hother
      cases hread.symm.trans hschema
      exact type
  | verbatim => cases hnew

/-- Text of the target language and references are types at once, and nothing else is. -/
theorem isResolved_answered_iff (container : String) (property : SchemaNode)
    (answer : PropertyMapping) : (answered container property answer).value.isResolved
      ↔ answer.Withdraws property.type := by
  have hanswered := answerLeaves_answered container property answer
  generalize (answered container property answer).value = node at hanswered ⊢
  constructor
  · intro hresolved
    cases hanswered with
    | same | untyped | known => cases hresolved
    | verbatim hne hsome hread => exact ⟨_, hsome, hne, .inl ⟨_, hread⟩⟩
    | fragment hne hsome hread =>
      have href := (isResolved_loaded_iff container _).1 hresolved
      exact ⟨_, hsome, hne, .inr ⟨_, hread, href⟩⟩
  · rintro ⟨text, htext, hne, hread⟩
    cases hanswered with
    | same hsame => exact absurd hsame hne
    | untyped _ hnone => simp [hnone] at htext
    | known _ hsome hknown =>
      cases hsome.symm.trans htext
      rw [Fragment.ofText_of_isKnownType hknown] at hread
      rcases hread with ⟨_, hread⟩ | ⟨_, hread, -⟩ <;> cases hread
    | verbatim => rfl
    | fragment _ hsome hschema =>
      cases hsome.symm.trans htext
      rcases hread with ⟨_, hread⟩ | ⟨_, hread, href⟩
      · cases hschema.symm.trans hread
      · cases hschema.symm.trans hread
        exact (isResolved_loaded_iff container _).2 href

/-! ### One pass -/

/-- A pass with a hook that does not fail: its calls, at the positions of the properties that they
are about, and the tree that it leaves. -/
inductive HookPass (container : String) (node : Node) : List (Position × Exchange) → Node → Prop
  | mk {σ : Type} (mapper : Mapper σ) (state : σ) {after : Node}
      (h : (outcome (applyMapper mapper container node) state).value.1 = .ok after) :
    HookPass container node (node.offered.zip (passCalls mapper container node state)) after

/-- The calls of a pass, and its tree, as answers at positions. -/
structure Answering (container : String) (node : Node) (calls : List (Position × Exchange))
    (after : Node) (answers : Answers) : Prop where
  tree : after = node.answeredTree container answers
  questions : calls.map (fun call => (call.1, call.2.question)) = node.questions
  results : ∀ call ∈ calls, ∃ answer, call.2.result = .ok answer ∧ answers call.1 = some answer
  others : ∀ position ∉ node.offered, answers position = none

theorem HookPass.exists_answering {container : String} {node after : Node}
    {calls : List (Position × Exchange)} (h : HookPass container node calls after)
    (hn : node.Named) : ∃ answers, Answering container node calls after answers := by
  obtain ⟨mapper, state, hrun⟩ := h
  have hasks := asks_applyMapper mapper container hn state []
  rw [fst_value_recorded, hrun] at hasks
  unfold passCalls
  generalize (outcome (applyMapper mapper.recorded container node) (state, [])).value.2.2
    = transcript at hasks ⊢
  cases hasks with
  | answered given count hgood =>
    have hcount : given.length = node.offered.length := by
      rw [count, ← map_fst_questions, List.length_map, List.length_map]
    have hnodup : node.offered.Nodup := by
      rw [← map_fst_questions]
      exact nodup_positions hn
    have hgiven := Answers.map_ofList hnodup hcount
    have hothers : ∀ position ∉ node.offered, Answers.ofList node.offered given position = none :=
      fun _ => Answers.ofList_of_notMem given
    have htree : after = node.answeredTree container (Answers.ofList node.offered given) := by
      rw [answeredTree_of_eq_none container node (hothers [] (nil_notMem_offered node))]
      apply hgood.2
      rw [← hgiven, ← map_fst_questions, List.map_map]
      rfl
    have hquestions : (node.offered.zip (exchanges (node.questions.map Prod.snd) given)).map
        (Prod.map id Exchange.question) = node.questions := by
      rw [← List.zip_map, map_question_exchanges count, List.map_id, ← map_fst_questions]
      exact (List.zip_of_prod rfl rfl).symm
    have hresults : (node.offered.zip (exchanges (node.questions.map Prod.snd) given)).map
        (Prod.map (Answers.ofList node.offered given) Exchange.result)
          = given.map fun answer => (some answer, .ok answer) := by
      rw [← List.zip_map, map_result_exchanges count, hgiven]
      exact List.zip_map'
    rw [List.nil_append]
    refine ⟨_, htree, hquestions, ?_, hothers⟩
    intro call hcall
    obtain ⟨answer, -, hanswer⟩ := List.mem_map.1 (hresults ▸ List.mem_map_of_mem hcall)
    obtain ⟨hsome, hok⟩ := Prod.mk.inj hanswer
    exact ⟨answer, hok.symm, hsome.symm⟩

namespace Answering

section

variable {container : String} {node after : Node} {calls : List (Position × Exchange)}
  {answers : Answers} {above : Position} {name : String} {call : Exchange}

theorem named (h : Answering container node calls after answers) (hn : node.Named) :
    after.Named := by
  rw [h.tree]
  exact named_answeredTree container hn answers

theorem mem_offered (h : Answering container node calls after answers) {position : Position}
    {answer : PropertyMapping} (ha : answers position = some answer) : position ∈ node.offered := by
  by_contra hnone
  rw [h.others position hnone] at ha
  cases ha

theorem about (h : Answering container node calls after answers) (hn : node.Named) :
    answers.About node := by
  intro position _ ha
  obtain ⟨answer, ha⟩ := Option.isSome_iff_exists.1 ha
  exact (mem_offered_iff hn).1 (h.mem_offered ha)

theorem exists_call_iff (h : Answering container node calls after answers) {position : Position} :
    (∃ call, (position, call) ∈ calls) ↔ position ∈ node.offered := by
  rw [← map_fst_questions, ← h.questions, List.map_map, List.mem_map]
  constructor
  · rintro ⟨call, hcall⟩
    exact ⟨(position, call), hcall, rfl⟩
  · rintro ⟨⟨_, call⟩, hcall, rfl⟩
    exact ⟨call, hcall⟩

/-- A call is about a property of the tree, and says what its owner says of it. -/
theorem exists_propertyAt (h : Answering container node calls after answers) (hn : node.Named)
    (hcall : (above ++ [.property name], call) ∈ calls) : ∃ owner property,
      node.PropertyAt above name owner property
        ∧ call.question = .ofProperty property (context owner.required name property) := by
  have hasked : (above ++ [.property name], call.question) ∈ node.questions := by
    rw [← h.questions]
    exact List.mem_map_of_mem hcall
  obtain ⟨other, _, owner, property, hproperty, heq⟩ := (mem_questions_iff hn).1 hasked
  obtain ⟨hposition, hquestion⟩ := Prod.mk.inj heq
  obtain ⟨rfl, hlast⟩ := List.append_inj' hposition rfl
  cases hlast
  exact ⟨owner, property, hproperty, hquestion⟩

/-- Where no call puts something else, no answer does. -/
theorem not_replace (h : Answering container node calls after answers) (hn : node.Named)
    {position : Position} (hkept : ∀ call, (position, call) ∈ calls → ¬call.Replaces) :
    ¬answers.Replace node position := by
  rintro ⟨property, mapping, hat, hmapping, hreplaces⟩
  obtain ⟨above, name, owner, found, rfl, hproperty⟩ :=
    (mem_offered_iff hn).1 (h.mem_offered hmapping)
  rw [hproperty.at?] at hat
  cases hat
  have hasked := (mem_questions_iff hn).2 ⟨above, name, owner, property, hproperty, rfl⟩
  rw [← h.questions] at hasked
  obtain ⟨⟨_, call⟩, hcall, heq⟩ := List.mem_map.1 hasked
  obtain ⟨rfl, hquestion⟩ := Prod.mk.inj heq
  obtain ⟨answer, hresult, hanswer⟩ := h.results _ hcall
  rw [hmapping] at hanswer
  cases hanswer
  apply hkept call hcall
  rw [call.replaces_iff, show call.question.type = property.type from congrArg _ hquestion]
  exact ⟨mapping, hresult, hreplaces⟩

/-- Where a property was asked about there stands what its answer leaves, as long as nothing else
was put in the place of what is above. -/
theorem exists_at?_answered (h : Answering container node calls after answers) (hn : node.Named)
    (hcall : (above ++ [.property name], call) ∈ calls)
    (hkept : ∀ higher, higher <+: above → ∀ call, (higher, call) ∈ calls → ¬call.Replaces) :
    ∃ answer property, call.result = .ok answer
      ∧ answers (above ++ [.property name]) = some answer ∧ property.type = call.question.type
      ∧ after.at? (above ++ [.property name])
        = some (answered container property answer).value := by
  obtain ⟨owner, property, hproperty, hquestion⟩ := h.exists_propertyAt hn hcall
  obtain ⟨answer, hresult, hanswer⟩ := h.results _ hcall
  have hat : after.at? (above ++ [.property name]) = (node.at? (above ++ [.property name])).map
      fun child => child.answeredTree container (answers.under (above ++ [.property name])) := by
    rw [h.tree]
    apply at?_answeredTree container (h.about hn)
    intro higher hprefix hne
    exact h.not_replace hn (hkept higher ((List.prefix_concat_iff.1 hprefix).resolve_left hne))
  have hself : answers.under (above ++ [.property name]) [] = some answer := by
    rw [Answers.under, List.append_nil, hanswer]
  rw [hproperty.at?, Option.map_some, answeredTree, hself, revised_pending] at hat
  refine ⟨answer, _, hresult, hanswer, ?_, hat⟩
  rw [type_settledObject_revisedChildren, hquestion]
  rfl

/-- An owner that nothing else was put in the place of requires a name as the answer says, if there
is one, and otherwise as before. -/
theorem exists_required (h : Answering container node calls after answers) (hn : node.Named)
    {old : SchemaNode} (hat : node.at? above = some (.pending old))
    (hkept : ∀ higher, higher <+: above → ∀ call, (higher, call) ∈ calls → ¬call.Replaces) :
    ∃ new, after.at? above = some (.pending new) ∧ ∀ name, new.required.contains name
      = ((answers (above ++ [.property name])).map fun answer => !answer.optional).getD
        (old.required.contains name) := by
  rw [h.tree]
  apply exists_required_answeredTree container hn (h.about hn) hat
  intro higher hprefix
  exact h.not_replace hn (hkept higher hprefix)

end

/-! ### The pass after it -/

variable {container : String} {node middle last : Node} {earlier later : List (Position × Exchange)}
  {answers others : Answers} {above : Position} {name : String} {call : Exchange}
  {answer : PropertyMapping}

/-- A property is asked about again unless its answer was a type at once, as long as its owner is
still an object. -/
theorem offered_again_iff (h : Answering container node earlier middle answers) (hn : node.Named)
    (hcall : (above ++ [.property name], call) ∈ earlier)
    (hkept : ∀ higher, higher <+: above → ∀ call, (higher, call) ∈ earlier → ¬call.Replaces)
    (hanswer : call.result = .ok answer) :
    above ++ [.property name] ∈ middle.offered ↔ ¬answer.Withdraws call.question.type
      ∧ ∃ owner, middle.at? above = some (.pending owner) ∧ owner.shape = .object := by
  obtain ⟨_, property, hresult, -, htype, hat⟩ := h.exists_at?_answered hn hcall hkept
  cases hanswer.symm.trans hresult
  rw [mem_offered_iff (h.named hn), ← htype, ← isResolved_answered_iff container]
  constructor
  · rintro ⟨_, _, owner, new, hposition, hproperty⟩
    obtain ⟨rfl, hlast⟩ := List.append_inj' hposition rfl
    cases hlast
    rw [hproperty.at?, Option.some_inj] at hat
    rw [← hat]
    exact ⟨Bool.false_ne_true, owner, hproperty.here, hproperty.isObject⟩
  · rintro ⟨hopen, owner, howner, hs⟩
    rw [at?_append, howner, Option.bind_some, at?_pending_cons] at hat
    obtain ⟨child, hchild, hnode⟩ := Option.bind_eq_some_iff.1 hat
    rw [at?_nil, Option.some_inj] at hnode
    rw [← hnode] at hopen
    cases child with
    | resolved type => exact absurd rfl hopen
    | pending new => exact ⟨above, name, owner, new, rfl, howner, hs, hchild⟩

theorem recalls (h : Answering container node earlier middle answers) (hn : node.Named)
    (hcall : (above ++ [.property name], call) ∈ earlier)
    (hkept : ∀ higher, higher <+: above → ∀ call, (higher, call) ∈ earlier → ¬call.Replaces)
    (hanswer : call.result = .ok answer) (h' : Answering container middle later last others)
    {again : Exchange} (hagain : (above ++ [.property name], again) ∈ later) :
    Recalls call.question.type answer again.question := by
  obtain ⟨_, property, hresult, hgiven, htype, hat⟩ := h.exists_at?_answered hn hcall hkept
  cases hanswer.symm.trans hresult
  obtain ⟨old, _, hold, -⟩ := h.exists_propertyAt hn hcall
  obtain ⟨owner, howner, hrequired⟩ := h.exists_required hn hold.here hkept
  obtain ⟨_, new, hnew, hquestion⟩ := h'.exists_propertyAt (h.named hn) hagain
  rw [hnew.at?, Option.some_inj] at hat
  have hsame := hnew.here
  rw [howner] at hsame
  cases hsame
  have hcontains : owner.required.contains name = !answer.optional := by
    rw [hrequired, hgiven]
    rfl
  rw [← htype, hquestion]
  apply recalls_of_answered hat.symm rfl rfl
  show (!owner.required.contains name) = answer.optional
  rw [hcontains, Bool.not_not]

end Answering

/-- A second pass with a hook sees what the first one answered. Both hooks are asked about all
properties that are still schemas, in order. Let the first one have been asked about a property,
and let no answer have put something else in the place of its owner, or above. If the answer was
text of the target language or a reference, the second one is not asked about the property, and
otherwise it is as long as the owner is still an object. What it is told then is what was answered.
In the end an owner that neither pass put something else in the place of, or above, requires no
name twice. It requires a property that was asked about if and only if the last answer about it did
not make it optional. -/
theorem second_pass_sees_first_answers {container : String} {schema : Schema} (h : schema.Distinct)
    {middle last : Node} {earlier later : List (Position × Exchange)}
    (first : HookPass container (loaded container schema) earlier middle)
    (second : HookPass container middle later last) :
    earlier.map (fun call => (call.1, call.2.question)) = schema.questions
    ∧ later.map (fun call => (call.1, call.2.question)) = middle.questions
    ∧ (∀ above name call, (above ++ [.property name], call) ∈ earlier →
      (∀ higher, higher <+: above → ∀ call, (higher, call) ∈ earlier → ¬call.Replaces) →
      ∃ answer, call.result = .ok answer
        ∧ ((∃ again, (above ++ [.property name], again) ∈ later)
          ↔ ¬answer.Withdraws call.question.type
            ∧ ∃ owner, middle.at? above = some (.pending owner) ∧ owner.shape = .object)
        ∧ ∀ again, (above ++ [.property name], again) ∈ later →
          Recalls call.question.type answer again.question)
    ∧ ∀ above old, (loaded container schema).at? above = some (.pending old) →
      (∀ higher, higher <+: above → ∀ call, (higher, call) ∈ earlier ++ later → ¬call.Replaces) →
      ∃ owner, last.at? above = some (.pending owner) ∧ owner.required.names.Nodup
        ∧ ∀ name call, (above ++ [.property name], call) ∈ later
            ∨ (¬∃ again, (above ++ [.property name], again) ∈ later)
              ∧ (above ++ [.property name], call) ∈ earlier →
          ∃ answer, call.result = .ok answer
            ∧ (name ∈ owner.required.names ↔ answer.optional = false) := by
  have hn : (loaded container schema).Named := named_loaded container h
  obtain ⟨answers, hfirst⟩ := first.exists_answering hn
  obtain ⟨others, hsecond⟩ := second.exists_answering (hfirst.named hn)
  refine ⟨?_, hsecond.questions, ?_, ?_⟩
  · rw [hfirst.questions, questions_loaded]
  · intro above name call hcall hkept
    obtain ⟨answer, hanswer, -⟩ := hfirst.results _ hcall
    refine ⟨answer, hanswer, ?_, ?_⟩
    · rw [hsecond.exists_call_iff]
      exact hfirst.offered_again_iff hn hcall hkept hanswer
    · intro again hagain
      exact hfirst.recalls hn hcall hkept hanswer hsecond hagain
  · intro above old hat hkept
    simp only [List.mem_append, or_imp, forall_and] at hkept
    obtain ⟨halfway, hhalfway, hbefore⟩ := hfirst.exists_required hn hat hkept.1
    obtain ⟨owner, howner, hafter⟩ := hsecond.exists_required (hfirst.named hn) hhalfway hkept.2
    refine ⟨owner, howner, owner.required.nodup, ?_⟩
    intro name call hlast
    obtain ⟨answer, hanswer, hcontains⟩ : ∃ answer, call.result = .ok answer
        ∧ owner.required.contains name = !answer.optional := by
      rcases hlast with hcall | ⟨hunasked, hcall⟩
      · obtain ⟨answer, hanswer, hgiven⟩ := hsecond.results _ hcall
        refine ⟨answer, hanswer, ?_⟩
        rw [hafter, hgiven]
        rfl
      · obtain ⟨answer, hanswer, hgiven⟩ := hfirst.results _ hcall
        rw [hsecond.exists_call_iff] at hunasked
        refine ⟨answer, hanswer, ?_⟩
        rw [hafter, hsecond.others _ hunasked, hbefore, hgiven]
        rfl
    refine ⟨answer, hanswer, ?_⟩
    rw [← RequiredSet.contains_eq_true_iff, hcontains, Bool.not_eq_true']

/-- A box whose home is an object with a city. -/
def boxSchema : Schema where
  type := some "object"
  properties := some [("label", { type := some "string" }), ("size", { type := some "integer" }),
    ("home", { type := some "object", properties := some [("city", { type := some "string" })] })]
  required := some ["label"]

theorem boxSchema_distinct : boxSchema.Distinct := by
  have hleaf (type : String) : Schema.Distinct { type := some type } :=
    Schema.distinct_of_children_eq_nil rfl
  refine .mk (by decide) fun child hc => ?_
  have hc : child ∈ [_, _, _] := hc
  rw [List.mem_cons, List.mem_pair] at hc
  obtain rfl | rfl | rfl := hc
  · exact hleaf "string"
  · exact hleaf "integer"
  · refine .mk (by decide) fun child hc => ?_
    have hc : child ∈ [_] := hc
    obtain rfl := List.mem_singleton.1 hc
    exact hleaf "string"

/-- A hook that makes everything optional, integers numbers, and names objects. -/
def looseningHook : Mapper Unit := fun _ context =>
  pure ⟨match context.type with
    | some "integer" => some " number "
    | some "object" => some "Home"
    | type => type, true, some "loose"⟩

/-- A hook that makes numbers required. -/
def requiringHook : Mapper Unit := fun _ context =>
  pure { PropertyMapping.ofContext context with optional := context.type != some "number" }

/-- The box after the first hook. -/
def looseBox : Node :=
  match (outcome (applyMapper looseningHook "definitions"
    (loaded "definitions" boxSchema)) ()).value.1 with
  | .ok node => node
  | .error _ => loaded "definitions" boxSchema

/-- The type asked about and the answer of each call. -/
def answersOf (calls : List (Position × Exchange)) :
    List (Position × Option String × Option PropertyMapping) :=
  calls.map fun call => (call.1, call.2.question.type, call.2.result.toOption)

theorem exists_of_answersOf {calls : List (Position × Exchange)}
    {known : List (Position × Option String × Option PropertyMapping)} (h : answersOf calls = known)
    {position : Position} {type : Option String} {answer : PropertyMapping}
    (hmem : (position, type, some answer) ∈ known) :
    ∃ call, (position, call) ∈ calls ∧ call.question.type = type ∧ call.result = .ok answer := by
  rw [← h] at hmem
  obtain ⟨⟨_, ⟨question, message | given⟩⟩, hcall, heq⟩ := List.mem_map.1 hmem
  · cases heq
  · cases heq
    exact ⟨_, hcall, rfl, rfl⟩

theorem hookPass_looseBox :
    ∃ earlier, HookPass "definitions" (loaded "definitions" boxSchema) earlier looseBox
      ∧ answersOf earlier
        = [([.property "home", .property "city"], some "string",
            some ⟨some "string", true, some "loose"⟩),
          ([.property "label"], some "string", some ⟨some "string", true, some "loose"⟩),
          ([.property "size"], some "integer", some ⟨some " number ", true, some "loose"⟩),
          ([.property "home"], some "object", some ⟨some "Home", true, some "loose"⟩)] := by
  have hok : (outcome (applyMapper looseningHook "definitions"
      (loaded "definitions" boxSchema)) ()).value.1.isOk := by
    decide +kernel
  have hrun : (outcome (applyMapper looseningHook "definitions"
      (loaded "definitions" boxSchema)) ()).value.1 = .ok looseBox := by
    unfold looseBox
    split
    next h => exact h
    next h =>
      rw [h] at hok
      cases hok
  exact ⟨_, .mk looseningHook () hrun, by decide +kernel⟩

theorem hookPass_requiringHook :
    ∃ later last, HookPass "definitions" looseBox later last ∧ answersOf later
      = [([.property "label"], some "string", some ⟨some "string", true, some "loose"⟩),
        ([.property "size"], some "number", some ⟨some "number", false, some "loose"⟩)] := by
  have hok : (outcome (applyMapper requiringHook "definitions" looseBox) ()).value.1.isOk := by
    decide +kernel
  rcases hrun : (outcome (applyMapper requiringHook "definitions" looseBox) ()).value.1 with
    message | last
  · rw [hrun] at hok
    cases hok
  · exact ⟨_, last, .mk requiringHook () hrun, by decide +kernel⟩

/-- The size is a number when the second hook is asked about it, which makes it required, and the
label stays optional. The home is not asked about again. -/
theorem second_pass_sees_first_answers_box :
    boxSchema.Distinct ∧ ∃ earlier later last,
      HookPass "definitions" (loaded "definitions" boxSchema) earlier looseBox
      ∧ HookPass "definitions" looseBox later last
      ∧ (¬∃ again, ([.property "home"], again) ∈ later)
      ∧ (∃ again, ([.property "size"], again) ∈ later ∧ again.question.type = some "number"
        ∧ again.question.optional ∧ again.question.description = some "loose")
      ∧ ∃ owner, last.at? [] = some (.pending owner) ∧ "size" ∈ owner.required.names
        ∧ "label" ∉ owner.required.names := by
  obtain ⟨earlier, first, hearlier⟩ := hookPass_looseBox
  obtain ⟨later, last, second, hlater⟩ := hookPass_requiringHook
  obtain ⟨-, -, hanswers, howners⟩ :=
    second_pass_sees_first_answers boxSchema_distinct first second
  have hroot : ∀ higher, higher <+: [] → ∀ call, (higher, call) ∈ earlier ++ later →
      ¬call.Replaces := by
    intro higher hprefix call hcall
    have hmem : (higher, call.question.type, call.result.toOption)
        ∈ answersOf earlier ++ answersOf later := by
      rw [answersOf, answersOf, ← List.map_append]
      exact List.mem_map_of_mem hcall
    rw [hearlier, hlater, List.prefix_nil.1 hprefix] at hmem
    simp at hmem
  have hearly : ∀ higher, higher <+: [] → ∀ call, (higher, call) ∈ earlier → ¬call.Replaces :=
    fun higher hprefix call hcall => hroot higher hprefix call (List.mem_append_left _ hcall)
  obtain ⟨size, hsize, hinteger, hnumber⟩ :=
    exists_of_answersOf hearlier (.tail _ (.tail _ (.head _)))
  obtain ⟨home, hhome, hobject, hnamed⟩ :=
    exists_of_answersOf hearlier (.tail _ (.tail _ (.tail _ (.head _))))
  obtain ⟨label, hlabel, -, hoptional⟩ := exists_of_answersOf hlater (.head _)
  obtain ⟨again, hagain, -, hrequired⟩ := exists_of_answersOf hlater (.tail _ (.head _))
  refine ⟨boxSchema_distinct, earlier, later, last, first, second, ?_, ⟨again, hagain, ?_⟩, ?_⟩
  · obtain ⟨answer, hanswer, hasked, -⟩ := hanswers [] "home" home hhome hearly
    cases hnamed.symm.trans hanswer
    rw [List.nil_append] at hasked
    have hread : Fragment.ofText "Home" = .verbatim "Home" := by
      dsimp only [Fragment.ofText]
      rw [if_neg (by decide +kernel), if_neg (by decide +kernel)]
    rw [hasked, hobject]
    exact fun hopen => hopen.1 ⟨"Home", rfl, by decide, .inl ⟨"Home", hread⟩⟩
  · obtain ⟨answer, hanswer, -, hrecalls⟩ := hanswers [] "size" size hsize hearly
    cases hnumber.symm.trans hanswer
    have hsame := hrecalls again hagain
    rw [hinteger] at hsame
    exact ⟨hsame.known " number " rfl (by decide) (by decide), hsame.optional, hsame.description⟩
  · obtain ⟨old, hold⟩ : ∃ old, loaded "definitions" boxSchema = .pending old :=
      ⟨_, loaded_of_ref_eq_none "definitions" rfl⟩
    obtain ⟨owner, howner, -, hnames⟩ := howners [] old (by rw [hold, at?_nil]) hroot
    obtain ⟨_, hsized, hin⟩ := hnames "size" again (.inl hagain)
    obtain ⟨_, hlabelled, hout⟩ := hnames "label" label (.inl hlabel)
    cases hrequired.symm.trans hsized
    cases hoptional.symm.trans hlabelled
    exact ⟨owner, howner, hin.2 rfl, fun hmem => Bool.false_ne_true (hout.1 hmem).symm⟩

end Node
end SchemaTypes
