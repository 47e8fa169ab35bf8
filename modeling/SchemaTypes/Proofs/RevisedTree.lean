import SchemaTypes.Proofs.OwnAnswer
import SchemaTypes.Proofs.PassRuns

/-! The tree that a hook leaves, position by position. Where no answer puts something else, nor
above, there stands what stood there before, as the answers about it and what is below it say. -/
namespace SchemaTypes

variable {α β : Type}

theorem Keywords.lookup_map (f : Edge → α → β) (edges : List (Edge × α)) (edge : Edge) :
    (edges.map fun child => (child.1, f child.1 child.2)).lookup edge
      = (edges.lookup edge).map (f edge) := by
  induction edges with
  | nil => rfl
  | cons child rest ih =>
    obtain ⟨other, child⟩ := child
    rw [List.map_cons, List.lookup_cons, List.lookup_cons, ih]
    by_cases h : edge = other
    · subst h
      rw [beq_self_eq_true]
      rfl
    · rw [beq_eq_false_iff_ne.2 h]

/-- The answers about what stands at a position and below it. -/
def Answers.under (answers : Answers) (position : Position) : Answers := fun inner =>
  answers (position ++ inner)

/-- The answer is a schema or text of its own, and not this type. -/
def PropertyMapping.Replaces (mapping : PropertyMapping) (type : Option String) : Prop :=
  ∃ text, mapping.type = some text ∧ type ≠ some text
    ∧ ∀ declared, Fragment.ofText text ≠ .declared declared

theorem Exchange.replaces_iff (exchange : Exchange) : exchange.Replaces
    ↔ ∃ mapping, exchange.result = .ok mapping ∧ mapping.Replaces exchange.question.type := by
  simp only [Exchange.Replaces, PropertyMapping.Replaces, exists_and_left]

namespace Node

theorem at?_append (node : Node) (above position : Position) :
    node.at? (above ++ position) = (node.at? above).bind fun child => child.at? position := by
  induction above generalizing node with
  | nil => simp
  | cons edge above ih =>
    cases node with
    | resolved type => rfl
    | pending schema =>
      rw [List.cons_append, at?_pending_cons, at?_pending_cons, Option.bind_assoc]
      exact congrArg _ (funext fun child => ih child)

/-! ### Properties and their owners -/

/-- A property that is still a schema, in an object that owns it. -/
structure PropertyAt (node : Node) (above : Position) (name : String)
    (owner property : SchemaNode) : Prop where
  here : node.at? above = some (.pending owner)
  isObject : owner.shape = .object
  found : owner.child? (.property name) = some (.pending property)

theorem PropertyAt.at? {node : Node} {above : Position} {name : String}
    {owner property : SchemaNode} (h : node.PropertyAt above name owner property) :
    node.at? (above ++ [.property name]) = some (.pending property) := by
  rw [at?_append, h.here, Option.bind_some, at?_pending_cons, h.found, Option.bind_some, at?_nil]

/-- Everything that is asked about a tree are the properties of its objects that are still schemas,
each with what its owner says of it. -/
theorem mem_questions_iff {node : Node} (h : node.Named) {asked : Position × Question} :
    asked ∈ node.questions ↔ ∃ above name owner property,
      node.PropertyAt above name owner property ∧ asked = (above ++ [.property name],
        .ofProperty property (context owner.required name property)) := by
  induction node using Node.induction generalizing asked with
  | resolved type =>
    rw [questions_resolved]
    constructor
    · rintro ⟨⟩
    · rintro ⟨_ | ⟨edge, above⟩, name, owner, property, ⟨hat, -, -⟩, -⟩ <;> cases hat
  | pending schema ih =>
    obtain ⟨names, below⟩ := everywhere_pending_iff.1 h
    rw [questions_pending, List.mem_append, List.mem_flatMap, mem_ownQuestions]
    constructor
    · rintro (⟨child, hedge, hchild⟩ | ⟨hs, name, property, he, rfl⟩)
      · obtain ⟨inner, hinner, rfl⟩ := List.mem_map.1 hchild
        have hmem := Keywords.mem_children_of_mem_edges hedge
        obtain ⟨above, name, owner, property, ⟨hat, hs, hproperty⟩, rfl⟩ :=
          (ih child.2 hmem (below child.2 hmem)).1 hinner
        refine ⟨child.1 :: above, name, owner, property, ⟨?_, hs, hproperty⟩, rfl⟩
        rw [at?_pending_cons, Keywords.child?_of_mem_edges names hedge]
        exact hat
      · have hedge : (Edge.property name, Node.pending property) ∈ schema.edges :=
          Keywords.mem_edges.2 he
        exact ⟨[], name, schema, property,
          ⟨at?_nil _, hs, Keywords.child?_of_mem_edges names hedge⟩, rfl⟩
    · rintro ⟨_ | ⟨edge, above⟩, name, owner, property, ⟨hat, hs, hproperty⟩, rfl⟩
      · cases hat
        have hedge := Keywords.mem_edges_of_child? hproperty
        exact .inr ⟨hs, name, property, Keywords.mem_edges.1 hedge, rfl⟩
      · obtain ⟨child, hchild, hat⟩ := Option.bind_eq_some_iff.1 hat
        have hedge := Keywords.mem_edges_of_child? hchild
        have hmem := Keywords.mem_children_of_mem_edges hedge
        refine .inl ⟨(edge, child), hedge, List.mem_map.2 ⟨_, (ih child hmem (below child hmem)).2
          ⟨above, name, owner, property, ⟨hat, hs, hproperty⟩, rfl⟩, rfl⟩⟩

/-- The positions of the questions are those that are offered. -/
theorem map_fst_questions (node : Node) : node.questions.map Prod.fst = node.offered := by
  have hown (schema : SchemaNode) : (ownQuestions schema).map Prod.fst = ownOffered schema := by
    unfold ownQuestions ownOffered
    split
    · rw [offeredNames, List.map_filterMap]
      refine List.filterMap_congr fun entry _ => ?_
      obtain ⟨name, property | type⟩ := entry <;> rfl
    · rfl
  induction node using Node.induction with
  | resolved type => simp
  | pending schema ih =>
    rw [map_fst_questions_pending, offered_pending, hown]
    refine congrArg (· ++ _) (List.flatMap_congr fun child hc => ?_)
    rw [ih child.2 (Keywords.mem_children_of_mem_edges hc)]

theorem mem_offered_iff {node : Node} (hn : node.Named) {position : Position} :
    position ∈ node.offered ↔ ∃ above name owner property,
      position = above ++ [.property name] ∧ node.PropertyAt above name owner property := by
  rw [← map_fst_questions, List.mem_map]
  constructor
  · rintro ⟨asked, hasked, rfl⟩
    obtain ⟨above, name, owner, property, hproperty, rfl⟩ := (mem_questions_iff hn).1 hasked
    exact ⟨above, name, owner, property, rfl, hproperty⟩
  · rintro ⟨above, name, owner, property, rfl, hproperty⟩
    exact ⟨_, (mem_questions_iff hn).2 ⟨above, name, owner, property, hproperty, rfl⟩, rfl⟩

theorem nil_notMem_offered (node : Node) : [] ∉ node.offered := by
  rw [← map_fst_questions]
  intro hmem
  obtain ⟨asked, hasked, heq⟩ := List.mem_map.1 hmem
  exact ne_nil_of_mem_questions hasked heq

/-! ### One level -/

/-- The node that an answer leaves, if it is a schema and there is an answer. -/
def answeredNode (container : String) (answer : Option PropertyMapping) (node : Node) : Node :=
  match node, answer with
  | .pending property, some mapping => (answered container property mapping).value
  | node, _ => node

@[simp] theorem answeredNode_none (container : String) (node : Node) :
    answeredNode container none node = node := by
  cases node <;> rfl

theorem settledEntry_eq (container : String) (answers : Answers) (entry : String × Node) :
    settledEntry container answers entry
      = (entry.1, answeredNode container (answers [.property entry.1]) entry.2) := by
  unfold settledEntry answeredNode
  cases entry.2 <;> cases answers [.property entry.1] <;> rfl

theorem find?_settledEntry (container : String) (answers : Answers) (entries : List (String × Node))
    (name : String) : Assoc.find? name (entries.map (settledEntry container answers))
      = (Assoc.find? name entries).map (answeredNode container (answers [.property name])) := by
  induction entries with
  | nil => rfl
  | cons entry rest ih =>
    obtain ⟨other, node⟩ := entry
    rw [List.map_cons, settledEntry_eq, Assoc.find?_cons, Assoc.find?_cons, ih]
    by_cases h : name = other
    · rw [if_pos h, if_pos h, h]
      rfl
    · rw [if_neg h, if_neg h]

/-- Own answers are about own properties of an object. -/
def AnswersOwn (answers : Answers) (schema : SchemaNode) : Prop :=
  ∀ edge, (answers [edge]).isSome → schema.shape = .object
    ∧ ∃ name property, edge = .property name
      ∧ schema.child? (.property name) = some (.pending property)

theorem child?_settledObject (container : String) {answers : Answers} {schema : SchemaNode}
    (h : AnswersOwn answers schema) (edge : Edge) :
    (settledObject container answers schema).child? edge
      = (schema.child? edge).map (answeredNode container (answers [edge])) := by
  have hunanswered (ha : answers [edge] = none) {child : Option Node} :
      child = child.map (answeredNode container (answers [edge])) := by
    rw [ha]
    cases child <;> simp
  unfold settledObject
  split
  next entries hs hp =>
    cases edge with
    | property name =>
      rw [Keywords.child?, Keywords.child?, Option.getD_some, find?_settledEntry, hp]
      rfl
    | member | items | values =>
      apply hunanswered
      rw [← Option.not_isSome_iff_eq_none]
      intro ha
      obtain ⟨-, _, _, heq, -⟩ := h _ ha
      cases heq
  next hother =>
    apply hunanswered
    rw [← Option.not_isSome_iff_eq_none]
    intro ha
    obtain ⟨hs, name, property, -, hproperty⟩ := h edge ha
    cases hp : schema.properties with
    | none => simp [Keywords.child?, hp, Assoc.find?] at hproperty
    | some entries => exact hother entries hs hp

theorem edges_revisedChildren (container : String) (schema : SchemaNode) (answers : Answers) :
    (revisedChildren container schema answers).edges = schema.edges.map fun child =>
      (child.1, child.2.revised container (answers.below child.1)) := by
  rw [revisedChildren, Keywords.edges_withChildren (by simp)]
  exact List.zip_map'

theorem child?_revisedChildren (container : String) (schema : SchemaNode) (answers : Answers)
    (edge : Edge) : (revisedChildren container schema answers).child? edge
      = (schema.child? edge).map fun child => child.revised container (answers.below edge) := by
  rw [Keywords.child?_eq_lookup, Keywords.child?_eq_lookup, edges_revisedChildren]
  exact Keywords.lookup_map (fun edge child => revised container child (answers.below edge)) _ edge

/-- Answers about what is below a property leave its declared type. -/
theorem type_settledObject_revisedChildren (container : String) (answers : Answers)
    (property : SchemaNode) : (settledObject container answers
      (revisedChildren container property answers)).type = property.type := by
  unfold settledObject
  split <;> rfl

/-- What the answers about what is in a tree leave of it, and then the answer about itself. -/
def answeredTree (container : String) (node : Node) (answers : Answers) : Node :=
  answeredNode container (answers []) (node.revised container answers)

theorem answeredTree_of_eq_none (container : String) (node : Node) {answers : Answers}
    (h : answers [] = none) :
    node.answeredTree container answers = node.revised container answers := by
  rw [answeredTree, h, answeredNode_none]

end Node

/-! ### All levels -/

/-- Every answer is about the tree itself, or a property in it that is still a schema. -/
def Answers.About (answers : Answers) (node : Node) : Prop :=
  ∀ position ≠ [], (answers position).isSome → ∃ above name owner property,
    position = above ++ [.property name] ∧ node.PropertyAt above name owner property

/-- The answer about a schema puts something else in its place. -/
def Answers.Replace (answers : Answers) (node : Node) (position : Position) : Prop :=
  ∃ property mapping, node.at? position = some (.pending property)
    ∧ answers position = some mapping ∧ mapping.Replaces property.type

namespace Answers

variable {answers : Answers} {node : Node}

theorem About.under (h : answers.About node) {position : Position} {child : Node}
    (hat : node.at? position = some child) : (answers.under position).About child := by
  intro inner hne ha
  obtain ⟨above, name, owner, property, heq, hproperty⟩ := h (position ++ inner) (by simp [hne]) ha
  obtain rfl | ⟨front, last, rfl⟩ := List.eq_nil_or_concat inner
  · exact absurd rfl hne
  · rw [List.concat_eq_append, ← List.append_assoc] at heq
    obtain ⟨rfl, hlast⟩ := List.append_inj' heq rfl
    cases hlast
    have hhere := hproperty.here
    rw [Node.at?_append, hat, Option.bind_some] at hhere
    exact ⟨front, name, owner, property, List.concat_eq_append, hhere, hproperty.isObject,
      hproperty.found⟩

theorem Replace.of_below {schema : SchemaNode} {edge : Edge} {child : Node}
    (hchild : schema.child? edge = some child) {position : Position}
    (h : (answers.below edge).Replace child position) :
    answers.Replace (.pending schema) (edge :: position) := by
  obtain ⟨property, mapping, hat, hmapping, hreplaces⟩ := h
  refine ⟨property, mapping, ?_, hmapping, hreplaces⟩
  rw [Node.at?_pending_cons, hchild]
  exact hat

end Answers

namespace Node

theorem answersOwn_revisedChildren (container : String) {answers : Answers} {schema : SchemaNode}
    (h : answers.About (.pending schema)) :
    AnswersOwn answers (revisedChildren container schema answers) := by
  intro edge ha
  obtain ⟨above, name, owner, property, heq, hat, hs, hfound⟩ := h [edge] (by simp) ha
  obtain rfl : above = [] := by
    cases above with
    | nil => rfl
    | cons other above => simp at heq
  cases heq
  cases hat
  have hnew := child?_revisedChildren container schema answers (.property name)
  rw [hfound, Option.map_some, revised_pending] at hnew
  exact ⟨(Keywords.shape_withChildren (by simp)).trans hs, name, _, rfl, hnew⟩

theorem child?_revised (container : String) {answers : Answers} {schema : SchemaNode}
    (h : answers.About (.pending schema)) (edge : Edge) :
    (settledObject container answers (revisedChildren container schema answers)).child? edge
      = (schema.child? edge).map fun child =>
        child.answeredTree container (answers.below edge) := by
  rw [child?_settledObject container (answersOwn_revisedChildren container h),
    child?_revisedChildren, Option.map_map]
  rfl

/-- A property whose answer puts nothing else in its place has another type and description. -/
theorem answered_of_not_replaces (container : String) {property : SchemaNode}
    {mapping : PropertyMapping} (h : ¬mapping.Replaces property.type) :
    ∃ type, (answered container property mapping).value
      = .pending { property with type, description := mapping.description } := by
  have hanswered := answerLeaves_answered container property mapping
  generalize (answered container property mapping).value = node at hanswered ⊢
  cases hanswered with
  | same => exact ⟨property.type, rfl⟩
  | untyped => exact ⟨none, rfl⟩
  | @known text => exact ⟨some (Text.trim text), rfl⟩
  | fragment hne hsome hread | verbatim hne hsome hread =>
    refine absurd ⟨_, hsome, hsome ▸ hne.symm, ?_⟩ h
    simp [hread]

/-- Where an answer puts nothing else, a schema keeps what the other answers left in it. -/
theorem answeredTree_pending (container : String) {answers : Answers} {schema : SchemaNode}
    (h : ¬answers.Replace (.pending schema) []) :
    ∃ type description, (pending schema).answeredTree container answers
      = .pending { settledObject container answers (revisedChildren container schema answers)
        with type, description } := by
  rw [answeredTree, revised_pending]
  cases hanswer : answers [] with
  | none => exact ⟨_, _, answeredNode_none container _⟩
  | some mapping =>
    have hkept : ¬mapping.Replaces (settledObject container answers
        (revisedChildren container schema answers)).type := by
      rw [type_settledObject_revisedChildren]
      intro hreplaces
      exact h ⟨schema, mapping, at?_nil _, hanswer, hreplaces⟩
    obtain ⟨type, hvalue⟩ := answered_of_not_replaces container hkept
    exact ⟨type, mapping.description, hvalue⟩

/-- As long as nothing else was put in the place of what is above a position, there stands what the
answers leave of the node that stood there before. -/
theorem at?_answeredTree (container : String) {node : Node} {answers : Answers}
    (ha : answers.About node) {position : Position}
    (h : ∀ above, above <+: position → above ≠ position → ¬answers.Replace node above) :
    (node.answeredTree container answers).at? position = (node.at? position).map fun child =>
      child.answeredTree container (answers.under position) := by
  induction position generalizing node answers with
  | nil =>
    rw [at?_nil, at?_nil]
    rfl
  | cons edge position ih =>
    cases node with
    | resolved type =>
      rw [answeredTree, revised_resolved]
      rfl
    | pending schema =>
      have hroot := h [] List.nil_prefix (List.cons_ne_nil _ _).symm
      obtain ⟨type, description, htree⟩ := answeredTree_pending container hroot
      rw [htree, at?_pending_cons, at?_pending_cons]
      -- Another type and description do not change what stands below.
      show ((settledObject container answers
        (revisedChildren container schema answers)).child? edge).bind _ = _
      rw [child?_revised container ha]
      cases hchild : schema.child? edge with
      | none => rfl
      | some child =>
        rw [Option.map_some, Option.bind_some, Option.bind_some]
        have hedge : (pending schema).at? [edge] = some child := by
          rw [at?_pending_cons, hchild, Option.bind_some, at?_nil]
        apply ih
        · exact ha.under hedge
        · intro above hprefix hne hreplace
          refine h (edge :: above) ((List.prefix_cons_inj edge).2 hprefix) ?_
            (hreplace.of_below hchild)
          intro heq
          exact hne (List.cons.inj heq).2

theorem named_answeredNode (container : String) (answer : Option PropertyMapping) {node : Node}
    (h : node.Named) : (answeredNode container answer node).Named := by
  cases node with
  | resolved type => exact .resolved type
  | pending property =>
    cases answer with
    | none => exact h
    | some mapping =>
      obtain ⟨names, below⟩ := everywhere_pending_iff.1 h
      have hanswered := answerLeaves_answered container property mapping
      show (answered container property mapping).value.Named
      generalize (answered container property mapping).value = node at hanswered ⊢
      cases hanswered with
      | same | untyped | known => exact .pending names below
      | fragment _ _ hread =>
        have hdistinct := Schema.distinct_iff.1 (distinct_of_ofText hread)
        exact named_loaded container (Schema.distinct_iff.2 hdistinct)
      | verbatim => exact .resolved _

/-- What a hook leaves of a tree names no property twice either: no fragment does. -/
theorem named_revised (container : String) {node : Node} (h : node.Named) (answers : Answers) :
    (node.revised container answers).Named := by
  induction node using Node.induction generalizing answers with
  | resolved type =>
    rw [revised_resolved]
    exact .resolved type
  | pending schema ih =>
    obtain ⟨names, below⟩ := everywhere_pending_iff.1 h
    have hchildren : ∀ child ∈ (revisedChildren container schema answers).children,
        child.Named := by
      intro child hc
      rw [← Keywords.map_snd_edges, edges_revisedChildren, List.map_map] at hc
      obtain ⟨old, hold, rfl⟩ := List.mem_map.1 hc
      have hmem := Keywords.mem_children_of_mem_edges hold
      exact ih old.2 hmem (below old.2 hmem) _
    rw [revised_pending]
    refine .pending ?_ fun child hc => ?_
    · rw [keys_settledObject, revisedChildren, Keywords.keys_properties_withChildren (by simp)]
      exact names
    · unfold settledObject at hc
      split at hc
      next entries _ hp =>
        rcases Keywords.mem_children_of_properties hc with ⟨entry, hentry, rfl⟩ | hold
        · obtain ⟨old, hold, rfl⟩ := List.mem_map.1 hentry
          rw [settledEntry_eq]
          apply named_answeredNode
          apply hchildren
          apply Keywords.mem_children_of_mem_properties
          rw [hp]
          exact hold
        · exact hchildren child hold
      next => exact hchildren child hc

theorem named_answeredTree (container : String) {node : Node} (h : node.Named) (answers : Answers) :
    (node.answeredTree container answers).Named :=
  named_answeredNode container _ (named_revised container h answers)

/-- As long as nothing else was put in the place of a schema, nor above, it is there still. Of the
properties that were asked about, its required names say what was answered. -/
theorem exists_required_answeredTree (container : String) {node : Node} (hn : node.Named)
    {answers : Answers} (ha : answers.About node) {above : Position} {old : SchemaNode}
    (hat : node.at? above = some (.pending old))
    (h : ∀ higher, higher <+: above → ¬answers.Replace node higher) :
    ∃ new, (node.answeredTree container answers).at? above = some (.pending new) ∧ ∀ name,
      new.required.contains name = ((answers (above ++ [.property name])).map
        fun answer => !answer.optional).getD (old.required.contains name) := by
  have hasked : (answers.under above).About (.pending old) := ha.under hat
  have hown := answersOwn_revisedChildren container hasked
  have hnames : (Assoc.keys ((revisedChildren container old
      (answers.under above)).properties.getD [])).Nodup := by
    rw [revisedChildren, Keywords.keys_properties_withChildren (by simp)]
    exact hn.of_at? hat
  have hpending : ∀ entry ∈ (revisedChildren container old
      (answers.under above)).properties.getD [],
      (answers.under above [.property entry.1]).isSome → ¬entry.2.isResolved := by
    intro entry he hanswer
    obtain ⟨-, _, property, hedge, hfound⟩ := hown _ hanswer
    cases hedge
    have hsame : some entry.2 = some (.pending property) :=
      (Assoc.find?_eq_some_of_mem hnames he).symm.trans hfound
    rw [Option.some.inj hsame]
    exact Bool.false_ne_true
  have hrecorded : ∀ name, (answers.under above [.property name]).isSome →
      (revisedChildren container old (answers.under above)).shape = .object
        ∧ name ∈ Assoc.keys ((revisedChildren container old
          (answers.under above)).properties.getD []) := by
    intro name hanswer
    obtain ⟨hs, _, property, hedge, hfound⟩ := hown _ hanswer
    cases hedge
    exact ⟨hs, List.mem_map_of_mem (Assoc.mem_of_find?_eq_some hfound)⟩
  have hrequired := view_settledObject (fun owner k => owner.required.contains k)
    (fun answer => !answer.optional) contains_record container hnames hpending hrecorded
  have hkept : ¬(answers.under above).Replace (.pending old) [] := by
    rintro ⟨property, mapping, hroot, hmapping, hreplaces⟩
    rw [at?_nil] at hroot
    apply h above List.prefix_rfl
    refine ⟨property, mapping, hat.trans hroot, ?_, hreplaces⟩
    rwa [Answers.under, List.append_nil] at hmapping
  obtain ⟨type, description, htree⟩ := answeredTree_pending container hkept
  have hnew := at?_answeredTree container ha fun higher hprefix _ => h higher hprefix
  rw [hat, Option.map_some, htree] at hnew
  exact ⟨_, hnew, hrequired⟩

end Node
end SchemaTypes
