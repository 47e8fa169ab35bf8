import SchemaTypes.Proofs.Dialogue
import SchemaTypes.Proofs.Position

/-! The questions that a tree raises, at the positions of the properties that they are about, and
the tree that a hook leaves of it as a function of its answers. -/
namespace SchemaTypes

variable {σ : Type}

/-- Answers at the positions of the properties that they are about. -/
abbrev Answers := Position → Option PropertyMapping

def Answers.below (answers : Answers) (edge : Edge) : Answers := fun position =>
  answers (edge :: position)

theorem Fragment.ofText_of_isKnownType {text : String}
    (h : Primitive.isKnownType (Text.trim text)) : ofText text = .declared (Text.trim text) :=
  if_pos h

/-- A known type is read as its trimmed text, and text of the target language as itself. -/
theorem Fragment.ofText_cases (text : String) :
    (Primitive.isKnownType (Text.trim text) ∧ ofText text = .declared (Text.trim text))
    ∨ (∃ fragment, ofText text = .schema fragment) ∨ ofText text = .verbatim text := by
  dsimp only [ofText]
  split
  next h => exact .inl ⟨h, rfl⟩
  next =>
    right
    split
    · split
      next fragment _ => exact .inl ⟨fragment, rfl⟩
      next => exact .inr rfl
    · exact .inr rfl

namespace Node

/-- What is asked about a property with this node, for an owner with these required names: nothing
if the node is a type. -/
def question? : Node → RequiredSet → String → Option Question
  | .pending property, required, name =>
    some (.ofProperty property (context required name property))
  | .resolved _, _, _ => none

theorem question?_congr {required other : RequiredSet} {name : String}
    (h : required.contains name = other.contains name) (node : Node) :
    node.question? required name = node.question? other name := by
  cases node with
  | resolved type => rfl
  | pending property => rw [question?, question?, context, context, h]

def entryQuestion (required : RequiredSet) (entry : String × Node) : Option (Position × Question) :=
  (entry.2.question? required entry.1).map ([.property entry.1], ·)

/-- What is asked about the own properties of an object. -/
def ownQuestions (schema : SchemaNode) : List (Position × Question) :=
  if schema.shape = .object then
    (schema.properties.getD []).filterMap (entryQuestion schema.required)
  else []

/-- What is asked about a tree: about the children of a schema in the order in which they are
visited, then about its own properties. -/
def questions : Node → List (Position × Question) :=
  fold (fun schema below =>
    (below.edges.flatMap fun child => child.2.map fun asked => (child.1 :: asked.1, asked.2))
      ++ ownQuestions schema) fun _ => []

@[simp] theorem questions_resolved (type : TypeExpr) : (resolved type).questions = [] := by
  rw [questions, fold]

theorem questions_pending (schema : SchemaNode) : (pending schema).questions
    = (schema.edges.flatMap fun child =>
        child.2.questions.map fun asked => (child.1 :: asked.1, asked.2))
      ++ ownQuestions schema := by
  rw [questions, fold_pending, Keywords.edges_map, List.flatMap_map]

/-- What is asked about own properties depends on the children only by what is asked about each. -/
theorem ownQuestions_congr {schema other : SchemaNode}
    (h : schema.map question? = other.map question?) :
    ownQuestions schema = ownQuestions other := by
  have hquestions (schema : SchemaNode) : ownQuestions schema
      = if (schema.map question?).shape = .object then
          ((schema.map question?).properties.getD []).filterMap fun entry =>
            (entry.2 (schema.map question?).required entry.1).map ([.property entry.1], ·)
        else [] := by
    rw [Keywords.shape_map, Keywords.getD_properties_map, List.filterMap_map]
    rfl
  rw [hquestions, hquestions, h]

/-- No object of the tree names a property twice. -/
def Named (node : Node) : Prop :=
  node.Everywhere fun schema => (Assoc.keys (schema.properties.getD [])).Nodup

/-! ### What answers leave -/

/-- What an answer can leave of a property. -/
inductive AnswerLeaves (container : String) (property : SchemaNode) (mapping : PropertyMapping) :
    Node → Prop
  | same (h : mapping.type = property.type) : AnswerLeaves container property mapping
    (.pending { property with description := mapping.description })
  | untyped (h : mapping.type ≠ property.type) (given : mapping.type = none) :
    AnswerLeaves container property mapping
      (.pending { property with type := none, description := mapping.description })
  | known {text : String} (h : mapping.type ≠ property.type) (given : mapping.type = some text)
      (read : Primitive.isKnownType (Text.trim text)) : AnswerLeaves container property mapping
    (.pending { property with type := some (Text.trim text), description := mapping.description })
  | fragment {text : String} {fragment : Schema} (h : mapping.type ≠ property.type)
      (given : mapping.type = some text) (read : Fragment.ofText text = .schema fragment) :
    AnswerLeaves container property mapping
      (loaded container { fragment with description := mapping.description })
  | verbatim {text : String} (h : mapping.type ≠ property.type)
      (given : mapping.type = some text) (read : Fragment.ofText text = .verbatim text) :
    AnswerLeaves container property mapping (.resolved (.verbatim text))

theorem answerLeaves_answered (container : String) (property : SchemaNode)
    (mapping : PropertyMapping) :
    AnswerLeaves container property mapping (answered container property mapping).value := by
  unfold answered
  split
  next h => exact .same h
  next h =>
    cases htype : mapping.type with
    | none => exact .untyped h htype
    | some text =>
      rw [Option.map_some]
      rcases Fragment.ofText_cases text with ⟨hknown, hread⟩ | ⟨fragment, hread⟩ | hread
      · rw [hread]
        exact .known h htype hknown
      · rw [hread]
        exact .fragment h htype hread
      · rw [hread]
        exact .verbatim h htype hread

/-- The property as the answer about it leaves it. -/
def settledEntry (container : String) (answers : Answers) (entry : String × Node) : String × Node :=
  match entry.2, answers [.property entry.1] with
  | .pending property, some mapping => (entry.1, (answered container property mapping).value)
  | node, _ => (entry.1, node)

/-- What an object keeps about its properties, with all answers recorded. -/
def settledOwner (answers : Answers) (owner : Owner) (entries : List (String × Node)) : Owner :=
  entries.foldl (fun owner entry => match entry.2, answers [.property entry.1] with
    | .pending _, some mapping => owner.record entry.1 mapping
    | _, _ => owner) owner

def settledObject (container : String) (answers : Answers) (schema : SchemaNode) : SchemaNode :=
  match schema.shape, schema.properties with
  | .object, some entries =>
    let owner := settledOwner answers ⟨schema.required, schema.docs⟩ entries
    { schema with
      required := owner.required, docs := owner.docs
      properties := some (entries.map (settledEntry container answers)) }
  | _, _ => schema

/-- The tree that these answers leave of a tree. -/
def revised (container : String) : Node → Answers → Node :=
  fold (fun schema below answers => .pending (settledObject container answers
    (schema.withChildren (below.edges.map fun child => child.2 (answers.below child.1)))))
    fun type _ => .resolved type

@[simp] theorem revised_resolved (container : String) (type : TypeExpr) (answers : Answers) :
    (resolved type).revised container answers = .resolved type := by
  rw [revised, fold]

/-- A schema with what these answers leave of its children. -/
def revisedChildren (container : String) (schema : SchemaNode) (answers : Answers) : SchemaNode :=
  schema.withChildren (schema.edges.map fun child =>
    child.2.revised container (answers.below child.1))

theorem revised_pending (container : String) (schema : SchemaNode) (answers : Answers) :
    (pending schema).revised container answers
      = .pending (settledObject container answers (revisedChildren container schema answers)) := by
  rw [revised, fold_pending, Keywords.edges_map, List.map_map]
  rfl

/-- What is recorded about a property says of it what was answered. -/
theorem contains_record (owner : Owner) (name : String) (mapping : PropertyMapping) (k : String) :
    (owner.record name mapping).required.contains k
      = if k = name then !mapping.optional else owner.required.contains k := by
  unfold Owner.record
  cases mapping.optional with
  | true => by_cases hk : k = name <;> simp [RequiredSet.contains_remove, hk]
  | false => by_cases hk : k = name <;> simp [RequiredSet.contains_insert, hk]

theorem find?_record (owner : Owner) (name : String) (mapping : PropertyMapping) (k : String) :
    Assoc.find? k (owner.record name mapping).docs
      = if k = name then mapping.description else Assoc.find? k owner.docs := by
  unfold Owner.record
  cases mapping.description with
  | none => exact Assoc.find?_erase name owner.docs k
  | some doc => exact Assoc.find?_put name doc owner.docs k

/-! ### A pass as a dialogue -/

/-- The properties of an object are asked about as they stood before the first of them: an answer
about one of them says nothing about the others. -/
theorem asks_mapProperties (mapper : Mapper σ) (container : String) (required : RequiredSet)
    {owner : Owner} {entries : List (String × Node)} (names : (Assoc.keys entries).Nodup)
    (h : ∀ name ∈ Assoc.keys entries, owner.required.contains name = required.contains name) :
    Asks id (mapProperties mapper.recorded container owner entries)
      ((entries.filterMap (entryQuestion required)).map Prod.snd)
      fun given result => ∀ answers : Answers,
        (entries.filterMap (entryQuestion required)).map (fun asked => answers asked.1)
          = given.map some →
        result
          = (settledOwner answers owner entries, entries.map (settledEntry container answers)) := by
  induction entries generalizing owner with
  | nil => exact .pure fun answers _ => rfl
  | cons entry rest ih =>
    obtain ⟨name, node⟩ := entry
    obtain ⟨hname, hnames⟩ := List.nodup_cons.1 names
    have hrest : ∀ k ∈ Assoc.keys rest, owner.required.contains k = required.contains k :=
      fun k hk => h k (List.mem_cons_of_mem _ hk)
    cases node with
    | resolved type =>
      have hnone : entryQuestion required (name, .resolved type) = none := rfl
      rw [List.filterMap_cons_none hnone, mapProperties]
      show Asks id (mapProperties mapper.recorded container owner rest >>= fun result =>
        Pure.pure (result.1, (name, Node.resolved type) :: result.2)) _ _
      rw [bind_pure_comp]
      apply (ih hnames hrest).map
      intro given result _ hresult answers hanswers
      rw [hresult answers hanswers]
      rfl
    | pending property =>
      have hquestion : entryQuestion required (name, .pending property)
          = some ([.property name],
            .ofProperty property (context owner.required name property)) :=
        congrArg (Option.map _) (question?_congr (h name List.mem_cons_self).symm _)
      rw [List.filterMap_cons_some hquestion, mapProperties]
      show Asks id _ ([_] ++ (rest.filterMap (entryQuestion required)).map Prod.snd) _
      apply (Asks.ask mapper property _).bind
      intro given mapping _ hgiven
      apply Asks.lift_bind
      show Asks id (mapProperties mapper.recorded container (owner.record name mapping) rest
        >>= fun result => Pure.pure (result.1,
          (name, (answered container property mapping).value) :: result.2)) _ _
      rw [bind_pure_comp]
      have hrecorded : ∀ k ∈ Assoc.keys rest,
          (owner.record name mapping).required.contains k = required.contains k := by
        intro k hk
        have hother : k ≠ name := by
          rintro rfl
          exact hname hk
        rw [contains_record, if_neg hother]
        exact hrest k hk
      apply (ih hnames hrecorded).map
      intro others result _ hresult answers hanswers
      subst hgiven
      obtain ⟨hhere, hothers⟩ := List.cons.inj hanswers
      rw [hresult answers hothers]
      simp only [settledOwner, settledEntry, List.foldl_cons, List.map_cons, hhere]

/-- Other properties and required names do not change what a schema describes. -/
theorem shape_withProperties {schema : SchemaNode} {old : List (String × Node)}
    (h : schema.properties = some old) (entries : List (String × Node)) (owner : Owner) :
    Keywords.shape { schema with
      required := owner.required, docs := owner.docs, properties := some entries }
        = schema.shape := by
  simp only [Keywords.shape, h, Option.isSome_some]

/-- A schema of the same type, format and shape, with the same description, raises the question. -/
theorem question?_pending_congr {property other : SchemaNode} (type : other.type = property.type)
    (format : other.format = property.format)
    (description : other.description = property.description)
    (shape : other.shape = property.shape) :
    (pending other).question? = (pending property).question? := by
  funext required name
  simp only [question?, context, Question.ofProperty, type, format, description, shape]

/-- Nothing is asked about own properties where there is no object with some. -/
theorem ownQuestions_eq_nil {schema : SchemaNode}
    (h : ∀ entries, schema.shape = .object → schema.properties = some entries → False) :
    ownQuestions schema = [] := by
  unfold ownQuestions
  split
  next hs =>
    cases hp : schema.properties with
    | none => rfl
    | some entries => exact absurd hp (h entries hs)
  next => rfl

theorem settledObject_eq_self (container : String) (answers : Answers) {schema : SchemaNode}
    (h : ∀ entries, schema.shape = .object → schema.properties = some entries → False) :
    settledObject container answers schema = schema := by
  unfold settledObject
  split
  next entries hs hp => exact absurd hp (h entries hs)
  next => rfl

/-- An object whose children are done asks about its own properties. -/
theorem asks_mapObject (mapper : Mapper σ) (container : String) {schema : SchemaNode}
    (names : (Assoc.keys (schema.properties.getD [])).Nodup) :
    Asks id (mapObject mapper.recorded container schema) ((ownQuestions schema).map Prod.snd)
      fun given node => node.question? = (pending schema).question? ∧ ∀ answers : Answers,
        (ownQuestions schema).map (fun asked => answers asked.1) = given.map some →
        node = .pending (settledObject container answers schema) := by
  unfold mapObject
  split
  next entries hs hp =>
    have hown : ownQuestions schema = entries.filterMap (entryQuestion schema.required) := by
      rw [ownQuestions, if_pos hs, hp, Option.getD_some]
    rw [hp, Option.getD_some] at names
    rw [hown]
    show Asks id (mapProperties mapper.recorded container _ entries >>= fun result => pure _) _ _
    rw [bind_pure_comp]
    apply (asks_mapProperties mapper container schema.required names fun _ _ => rfl).map
    intro given result _ hresult
    constructor
    · exact question?_pending_congr rfl rfl rfl (shape_withProperties hp result.2 result.1)
    · intro answers ha
      rw [hresult answers ha, settledObject, hs, hp]
  next hother =>
    rw [ownQuestions_eq_nil hother]
    apply Asks.pure
    constructor
    · rfl
    · intro answers _
      rw [settledObject_eq_self container answers hother]

/-- Answers to the questions of all children are answers to those of each. -/
theorem revised_of_dealt {container : String} {children : List (Edge × Node)}
    {given : List PropertyMapping} {nodes : List Node}
    (h : Dealt (fun child given node => given.length = (child.2.questions.map Prod.snd).length
      ∧ node.question? = child.2.question? ∧ ∀ answers : Answers,
        child.2.questions.map (fun asked => answers asked.1) = given.map some →
        node = child.2.revised container answers) children given nodes) :
    nodes.map question? = children.map (fun child => child.2.question?)
    ∧ ∀ answers : Answers, (children.flatMap fun child =>
        child.2.questions.map fun asked => answers (child.1 :: asked.1)) = given.map some →
      nodes = children.map fun child => child.2.revised container (answers.below child.1) := by
  induction h with
  | nil => exact ⟨rfl, fun _ _ => rfl⟩
  | @cons child _ _ _ _ _ head tail ih =>
    obtain ⟨count, hquestion, hrevised⟩ := head
    obtain ⟨hquestions, hnodes⟩ := ih
    constructor
    · rw [List.map_cons, List.map_cons, hquestion, hquestions]
    · intro answers ha
      rw [List.flatMap_cons, List.map_append] at ha
      obtain ⟨hhere, hothers⟩ := List.append_inj ha (by simpa using count.symm)
      rw [List.map_cons, hnodes answers hothers, hrevised (answers.below child.1) hhere]

/-- The hook is asked the questions of the tree, in their order, whatever it answers, and its
answers decide the tree that is left. -/
theorem asks_applyMapper (mapper : Mapper σ) (container : String) {node : Node} (h : node.Named) :
    Asks id (applyMapper mapper.recorded container node) (node.questions.map Prod.snd)
      fun given after => after.question? = node.question? ∧ ∀ answers : Answers,
        node.questions.map (fun asked => answers asked.1) = given.map some →
        after = node.revised container answers := by
  induction node using Node.induction with
  | resolved type =>
    rw [questions_resolved, applyMapper, rebuildM]
    exact .pure ⟨rfl, fun answers _ => (revised_resolved container type answers).symm⟩
  | pending schema ih =>
    obtain ⟨names, below⟩ := everywhere_pending_iff.1 h
    have hchildren := Asks.mapM fun child (hc : child ∈ schema.edges) =>
      ih child.2 (Keywords.mem_children_of_mem_edges hc)
        (below child.2 (Keywords.mem_children_of_mem_edges hc))
    have hquestions : (pending schema).questions.map Prod.snd
        = (schema.edges.flatMap fun child => child.2.questions.map Prod.snd)
          ++ (ownQuestions schema).map Prod.snd := by
      rw [questions_pending, List.map_append, List.map_flatMap]
      simp only [List.map_map, Function.comp_def]
    rw [hquestions, applyMapper, rebuildM_pending, pure_bind, Keywords.mapChildrenM_eq,
      ← Keywords.map_snd_edges, List.mapM_map, bind_map_left]
    apply hchildren.bind
    intro given nodes count hdealt
    obtain ⟨hsame, hnodes⟩ := revised_of_dealt hdealt
    have hlength : nodes.length = schema.children.length := by
      rw [← Keywords.length_edges, ← List.length_map question?, hsame, List.length_map]
    -- The own properties come after the children, and raise the same questions as before.
    have hown : ownQuestions (schema.withChildren nodes) = ownQuestions schema := by
      apply ownQuestions_congr
      rw [Keywords.map_withChildren, hsame, Keywords.map_eq_withChildren, ← Keywords.map_snd_edges,
        List.map_map]
      rfl
    have hnames : (Assoc.keys ((schema.withChildren nodes).properties.getD [])).Nodup := by
      rw [Keywords.keys_properties_withChildren hlength]
      exact names
    rw [← hown]
    apply (asks_mapObject mapper container hnames).weaken
    rintro others after - ⟨hquestion, hafter⟩
    constructor
    · rw [hquestion]
      exact question?_pending_congr rfl rfl rfl (Keywords.shape_withChildren hlength)
    · intro answers ha
      rw [questions_pending, List.map_append, List.map_flatMap, List.map_append] at ha
      simp only [List.map_map, Function.comp_def] at ha
      have hcount : (schema.edges.flatMap fun child => child.2.questions.map fun asked =>
          answers (child.1 :: asked.1)).length = (given.map some).length := by
        simpa [List.length_flatMap] using count.symm
      obtain ⟨hbelow, hothers⟩ := List.append_inj ha hcount
      rw [← hown] at hothers
      rw [hafter answers hothers, revised_pending, revisedChildren, hnodes answers hbelow]

end Node
end SchemaTypes
