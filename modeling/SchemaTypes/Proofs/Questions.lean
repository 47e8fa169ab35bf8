import SchemaTypes.Proofs.TreeQuestions

/-! The questions that a document raises, at the positions of the properties that they are about,
and the tree that a hook leaves of a schema as a function of its answers. They are those of the tree
with the references looked up, in terms of what is written. -/
namespace SchemaTypes

variable {σ : Type}

namespace Schema

/-- What is asked about a property of an object with these required names: nothing if it has a
reference. -/
def ownQuestion (required : List String) (property : String × Schema) :
    Option (Position × Question) :=
  if property.2.ref.isSome then none
  else some ([.property property.1],
    ⟨property.2.type, !required.contains property.1, property.2.description, property.2.format,
      property.2.keywords.shape⟩)

/-- What is asked about the own properties of an object. -/
def ownQuestions (schema : Schema) : List (Position × Question) :=
  if schema.keywords.shape = .object then
    (schema.properties.getD []).filterMap (ownQuestion (schema.required.getD []))
  else []

/-- What is asked about a schema: about its children in the order in which they are visited, then
about its own properties, and nothing about a schema with a reference or below one. -/
def questions : Schema → List (Position × Question) :=
  fold fun schema below =>
    if schema.ref.isSome then []
    else (below.edges.flatMap fun child => child.2.map fun asked => (child.1 :: asked.1, asked.2))
      ++ schema.ownQuestions

theorem questions_of_ref {schema : Schema} {pointer : String} (h : schema.ref = some pointer) :
    schema.questions = [] := by
  rw [questions, fold_eq, h]
  rfl

theorem questions_of_ref_eq_none {schema : Schema} (h : schema.ref = none) :
    schema.questions = (schema.keywords.edges.flatMap fun child =>
      child.2.questions.map fun asked => (child.1 :: asked.1, asked.2)) ++ schema.ownQuestions := by
  rw [questions, fold_eq, h, Keywords.edges_map, List.flatMap_map]
  rfl

end Schema

namespace Node

/-- The tree that these answers leave of a schema. -/
def settled (container : String) : Schema → Answers → Node :=
  Schema.fold fun schema below answers =>
    if schema.ref.isSome then loaded container schema
    else .pending (settledObject container answers
      (below.withChildren (below.edges.map fun child => child.2 (answers.below child.1))))

theorem settled_of_ref (container : String) {schema : Schema} {pointer : String}
    (h : schema.ref = some pointer) (answers : Answers) :
    settled container schema answers = loaded container schema := by
  rw [settled, Schema.fold_eq, h]
  rfl

/-- A schema with what these answers leave of its children. -/
def settledChildren (container : String) (schema : Schema) (answers : Answers) : SchemaNode :=
  schema.keywords.withChildren (schema.keywords.edges.map fun child =>
    settled container child.2 (answers.below child.1))

theorem settled_of_ref_eq_none (container : String) {schema : Schema} (h : schema.ref = none)
    (answers : Answers) : settled container schema answers
      = .pending (settledObject container answers (settledChildren container schema answers)) := by
  rw [settled, Schema.fold_eq, h, Keywords.edges_map, List.map_map, Keywords.withChildren_map]
  rfl

/-! ### The tree with the references looked up -/

/-- A tree names every property once where the schema does. -/
theorem named_loaded (container : String) {schema : Schema} (h : schema.Distinct) :
    (loaded container schema).Named := by
  induction schema using Schema.induction with
  | step schema ih =>
    obtain ⟨names, below⟩ := h
    cases hr : schema.ref with
    | some pointer =>
      rw [loaded_of_ref container hr]
      exact .resolved _
    | none =>
      rw [loaded_of_ref_eq_none container hr]
      refine everywhere_map ?_ fun child hc => ih child hc (below child hc)
      rw [Keywords.keys_properties_map]
      exact names

theorem entryQuestion_loaded (container : String) (required : List String)
    (property : String × Schema) :
    entryQuestion (RequiredSet.ofList required) (property.1, loaded container property.2)
      = Schema.ownQuestion required property := by
  cases hr : property.2.ref with
  | some pointer =>
    rw [entryQuestion, loaded_of_ref container hr, Schema.ownQuestion, hr]
    rfl
  | none =>
    rw [entryQuestion, loaded_of_ref_eq_none container hr, Schema.ownQuestion, hr, question?,
      Question.ofProperty, context, RequiredSet.contains_ofList, Keywords.shape_map]
    rfl

theorem ownQuestions_loaded (container : String) (schema : Schema) :
    ownQuestions (schema.keywords.map (loaded container)) = schema.ownQuestions := by
  have hentries : (entryQuestion schema.keywords.required ∘
      fun property : String × Schema => (property.1, loaded container property.2))
        = Schema.ownQuestion (schema.required.getD []) :=
    funext fun property => entryQuestion_loaded container _ property
  rw [ownQuestions, Keywords.shape_map, Keywords.getD_properties_map, List.filterMap_map,
    Keywords.map_required, hentries]
  rfl

/-- What is asked about a schema is what is asked about its tree. -/
theorem questions_loaded (container : String) (schema : Schema) :
    (loaded container schema).questions = schema.questions := by
  induction schema using Schema.induction with
  | step schema ih =>
    cases hr : schema.ref with
    | some pointer =>
      rw [loaded_of_ref container hr, questions_resolved, Schema.questions_of_ref hr]
    | none =>
      rw [loaded_of_ref_eq_none container hr, questions_pending, Schema.questions_of_ref_eq_none hr,
        Keywords.edges_map, List.flatMap_map]
      have hbelow := List.flatMap_congr fun child hc => congrArg
        (List.map fun asked : Position × Question => (child.1 :: asked.1, asked.2))
        (ih child.2 (Keywords.mem_children_of_mem_edges hc))
      rw [hbelow, ownQuestions_loaded]

/-- What answers leave of a schema is what they leave of its tree. -/
theorem revised_loaded (container : String) (schema : Schema) (answers : Answers) :
    (loaded container schema).revised container answers = settled container schema answers := by
  induction schema using Schema.induction generalizing answers with
  | step schema ih =>
    cases hr : schema.ref with
    | some pointer =>
      rw [settled_of_ref container hr, loaded_of_ref container hr, revised_resolved]
    | none =>
      have hchildren : revisedChildren container (schema.keywords.map (loaded container)) answers
          = settledChildren container schema answers := by
        rw [revisedChildren, settledChildren, Keywords.withChildren_map, Keywords.edges_map,
          List.map_map]
        refine congrArg _ (List.map_congr_left fun child hc => ?_)
        exact ih child.2 (Keywords.mem_children_of_mem_edges hc) _
      rw [loaded_of_ref_eq_none container hr, settled_of_ref_eq_none container hr, revised_pending,
        hchildren]

/-- The hook is asked the questions of the schema, in their order, whatever it answers. Its answers
decide the tree, which is as free of references as the one that the hook is shown. -/
theorem asks_applyMapper_noReference (mapper : Mapper σ) (container : String) {schema : Schema}
    (h : schema.Distinct) :
    Asks id (applyMapper mapper.recorded container (loaded container schema))
      (schema.questions.map Prod.snd)
      fun given node => (∀ answers : Answers,
        schema.questions.map (fun asked => answers asked.1) = given.map some →
        node = settled container schema answers) ∧ node.NoReference := by
  have hloaded : (loaded container schema).NoReference :=
    noReference_resolveReferences container (.ofSchema schema)
  have hasks := (asks_applyMapper mapper container (named_loaded container h)).and_ensures
    (ensures_applyMapper mapper.recorded container hloaded)
  rw [questions_loaded] at hasks
  refine hasks.weaken ?_
  rintro given node - ⟨⟨-, hnode⟩, hreference⟩
  exact ⟨fun answers ha => (hnode answers ha).trans (revised_loaded container schema answers),
    hreference⟩

end Node
end SchemaTypes
