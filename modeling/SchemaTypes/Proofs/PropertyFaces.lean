import Mathlib
import SchemaTypes.Proofs.HookCalls
import SchemaTypes.Proofs.OwnAnswer

/-! What decides whether a property is optional, and its description, in the types of a run. -/
namespace SchemaTypes

open Steps (outcome)

variable {σ : Type}

namespace Node

theorem bare_loaded (container : String) (schema : Schema) : (loaded container schema).Bare := by
  induction schema using Schema.induction with
  | step schema ih =>
    cases hr : schema.ref with
    | some pointer =>
      rw [loaded_of_ref container hr]
      exact .resolved rfl
    | none =>
      rw [loaded_of_ref_eq_none container hr]
      refine .pending fun child hc => ?_
      rw [Keywords.children_map] at hc
      obtain ⟨old, hold, rfl⟩ := List.mem_map.1 hc
      exact ih old hold

theorem bare_answered (container : String) {property : SchemaNode} (h : (pending property).Bare)
    (mapping : PropertyMapping) : (answered container property mapping).value.Bare := by
  cases h with
  | pending below =>
    unfold answered
    split
    · exact .pending below
    · split
      · exact .pending below
      · exact .pending below
      · exact bare_loaded container _
      · exact .resolved rfl

theorem bare_settled (container : String) {hooked : Bool} {schema : Schema} (h : schema.Distinct)
    {answers : Answers} (hc : answers.Cover hooked schema) :
    (settled container schema answers).Bare := by
  induction schema using Schema.induction generalizing answers with
  | step schema ih =>
    obtain ⟨names, below⟩ := h
    cases hr : schema.ref with
    | some pointer =>
      rw [settled_of_ref container hr]
      exact bare_loaded container schema
    | none =>
      rw [settled_of_ref_eq_none container hr]
      have hsettled {edge : Edge} {node : Node}
          (h : (edge, node) ∈ (settledChildren container schema answers).edges) : node.Bare := by
        obtain ⟨child, hchild, rfl⟩ := exists_of_mem_edges_settledChildren h
        have hmem := Keywords.mem_children_of_mem_edges hchild
        exact ih child hmem (below child hmem) (hc.below hr names hchild)
      refine .pending fun node hnode => ?_
      rw [← Keywords.map_snd_edges] at hnode
      obtain ⟨⟨edge, _⟩, hedge, rfl⟩ := List.mem_map.1 hnode
      rcases mem_edges_settledObject (fun edge => recorded_of_cover container hr hc) hedge with
        ⟨hold, -⟩ | ⟨property, mapping, hproperty, -, hanswered⟩
      · exact hsettled hold
      · rw [hanswered]
        exact bare_answered container (hsettled hproperty) mapping

/-- The literal of an object's own properties has their faces. -/
theorem faces_ownObject {schema : SchemaNode} {types : List TypeExpr}
    (h : types.length = (schema.properties.getD []).length) :
    (ownObject schema types).properties.map Property.face = schema.ownFaces := by
  rw [Keywords.ownFaces_eq, ownObject]
  apply List.ext_getElem <;> simp [Assoc.keys, h, Property.face]

end Node

namespace Generator

/-- In a run with this transcript the hook leaves the tree of the schema, after these answers at the
positions of the properties asked about. Without a hook nothing is answered. -/
inductive Leaves (generator : Generator σ) (transcript : Transcript) (schema : Schema) :
    Answers → Node → Prop where
  | unasked (h : generator.mapper = none) : Leaves generator transcript schema (fun _ => none)
    (Node.loaded generator.options.container schema)
  | asked {mapper : Mapper σ} {state after : σ} {before calls : Transcript} {answers : Answers}
    {tree : Node} (h : generator.mapper = some mapper)
    (run : (outcome (Node.applyMapper mapper.recorded generator.options.container
      (Node.loaded generator.options.container schema)) (state, before)).value
        = (.ok tree, after, before ++ calls))
    (part : before ++ calls <+: transcript)
    (given : calls.map (fun call => (call.question, call.result.toOption))
      = schema.questions.map fun asked => (asked.2, answers asked.1))
    (others : ∀ position ∉ schema.positions, answers position = none) :
    Leaves generator transcript schema answers tree

theorem value_resolve_of_none {generator : Generator σ} (h : generator.mapper = none)
    (schema : Schema) (state : σ) :
    (outcome (generator.resolve (.ofSchema schema)) state).value
      = (.ok (Node.resolveComposites (Node.resolvePrimitives
          (Node.loaded generator.options.container schema))).value, state) := by
  obtain ⟨options, _, formatter⟩ := generator
  cases h
  rfl

theorem value_resolve_of_some {generator : Generator σ} {mapper : Mapper σ}
    (h : generator.mapper = some mapper) (schema : Schema) (state : σ) :
    (outcome (generator.resolve (.ofSchema schema)) state).value
      = match (outcome (Node.applyMapper mapper generator.options.container
          (Node.loaded generator.options.container schema)) state).value with
        | (.ok tree, after) =>
          (.ok (Node.resolveComposites (Node.resolvePrimitives tree)).value, after)
        | (.error message, after) => (.error (.mapper message), after) := by
  obtain ⟨options, _, formatter⟩ := generator
  cases h
  show (outcome ((liftM (Node.resolveReferences options.container (.ofSchema schema)) :
      Generating σ Node) >>= fun node => asking (Node.applyMapper mapper options.container node)
      >>= fun node => liftM (Node.resolveComposites (Node.resolvePrimitives node))) state).value = _
  rw [Steps.value_outcome_bind, Steps.value_outcome_lift]
  show (outcome (asking (Node.applyMapper mapper options.container
    (Node.loaded options.container schema)) >>= _) state).value = _
  rw [Steps.value_outcome_bind, value_outcome_asking]
  rcases (outcome (Node.applyMapper mapper options.container
    (Node.loaded options.container schema)) state).value with ⟨message | tree, after⟩ <;> rfl

/-- The calls of the hook with the answers at the positions asked about. -/
theorem map_exchanges {schema : Schema} {answers : Answers} {given : List PropertyMapping}
    (h : schema.positions.map answers = given.map some) :
    (exchanges (schema.questions.map Prod.snd) given).map
        (fun call => (call.question, call.result.toOption))
      = schema.questions.map fun asked => (asked.2, answers asked.1) := by
  have hgiven : schema.questions.map (fun asked => answers asked.1) = given.map some := by
    rw [← h, Schema.positions, List.map_map]
    rfl
  have hzip : (exchanges (schema.questions.map Prod.snd) given).map
      (fun call => (call.question, call.result.toOption))
      = (schema.questions.map Prod.snd).zip (given.map some) := by
    rw [exchanges, List.map_zipWith, List.zip_map_right, List.zip, List.map_zipWith]
    rfl
  rw [hzip, ← hgiven]
  exact List.zip_map'

/-- What the passes over a definition come to: the type of the tree that the answers settle. -/
theorem leaves_of_resolve {generator : Generator σ} {schema : Schema} (h : schema.Distinct)
    {state after : σ} {before so : Transcript} {node : Node}
    (hrun : (outcome (generator.recorded.resolve (.ofSchema schema)) (state, before)).value
      = (.ok node, after, so)) :
    before <+: so ∧ ∃ answers, answers.Cover generator.mapper.isSome schema
      ∧ (∀ transcript, so <+: transcript → generator.Leaves transcript schema answers
        (Node.settled generator.options.container schema answers))
      ∧ node = (Node.resolveComposites (Node.resolvePrimitives
        (Node.settled generator.options.container schema answers))).value
      ∧ (Node.settled generator.options.container schema answers).NoReference := by
  cases hm : generator.mapper with
  | none =>
    have hnone : generator.recorded.mapper = none := congrArg (Option.map Mapper.recorded) hm
    have hsettled := Node.settled_of_unanswered generator.options.container schema
      (fun _ => rfl : ∀ position, (fun _ => none : Answers) position = none)
    rw [value_resolve_of_none hnone] at hrun
    cases hrun
    refine ⟨List.prefix_rfl, fun _ => none, Answers.cover_none schema, fun transcript _ => ?_, ?_,
      ?_⟩
    · rw [hsettled]
      exact .unasked hm
    · rw [hsettled]
      rfl
    · rw [hsettled]
      exact Node.noReference_resolveReferences ..
  | some mapper =>
    have hsome : generator.recorded.mapper = some mapper.recorded :=
      congrArg (Option.map Mapper.recorded) hm
    have hasks := Node.asks_applyMapper_noReference mapper generator.options.container h state before
    rw [value_resolve_of_some hsome,
      show generator.recorded.options.container = generator.options.container from rfl] at hrun
    generalize hpass : (outcome (Node.applyMapper mapper.recorded generator.options.container
      (Node.loaded generator.options.container schema)) (state, before)).value = pass
      at hasks hrun
    obtain ⟨result, last, calls⟩ := pass
    cases hasks with
    | failed => cases hrun
    | @answered tree given count hgood =>
      cases hrun
      obtain ⟨hsettles, hreference⟩ := hgood
      have hcount : given.length = schema.positions.length := by
        simpa [Schema.positions] using count
      have hgiven := Answers.map_ofList (Schema.nodup_positions h) hcount
      have hothers : ∀ position ∉ schema.positions,
          Answers.ofList schema.positions given position = none :=
        fun position => Answers.ofList_of_notMem given
      have htree : tree = Node.settled generator.options.container schema
          (Answers.ofList schema.positions given) := by
        refine hsettles _ ?_
        rw [← hgiven, Schema.positions, List.map_map]
        rfl
      subst htree
      refine ⟨List.prefix_append _ _, Answers.ofList schema.positions given,
        Answers.cover_of_map_eq hgiven hothers, fun transcript hpart => ?_, rfl, hreference⟩
      exact .asked hm hpass hpart (map_exchanges hgiven) hothers

/-- The type that a run finds for a schema is that of a tree which the hook leaves, and the
properties in it are as their own answers say. -/
structure Decided (generator : Generator σ) (transcript : Transcript) (schema : Schema)
    (answers : Answers) (tree : Node) (type : TypeExpr) : Prop where
  leaves : generator.Leaves transcript schema answers tree
  typed : (Node.resolveComposites (Node.resolvePrimitives tree)).value = .resolved type
  /-- Every object is written somewhere. Outside of fragments it has the answers about its own
  properties. Which schema is written there depends on answers about what is above only. -/
  explained : ∀ position object, tree.At position object →
    ∃ written spliced, schema.writtenAt answers position = some (written, spliced)
      ∧ Explains (generator.mapper.isSome && !spliced) written
        (fun name => if spliced then none else answers (position ++ [.property name])) object
      ∧ ∀ other : Answers, (∀ above ≠ [], above <+: position → other above = answers above) →
        schema.writtenAt other position = some (written, spliced)
  literals : type.literals = (tree.sites generator.options.container).map Site.faces
  /-- Whoever requires a property in a literal has the literal as the type of a member. -/
  owned : ∀ site ∈ tree.sites generator.options.container,
    tree.At site.object.position site.object.schema
      ∧ ∀ inner owner outer, site.owners = inner ++ owner :: outer →
        tree.At owner.position owner.schema
          ∧ owner.Owns generator.options.container ⟨site.object, inner⟩

theorem decided_of_leaves {generator : Generator σ} {transcript : Transcript} {schema : Schema}
    (h : schema.Distinct) {answers : Answers} (hc : answers.Cover generator.mapper.isSome schema)
    (hleaves : generator.Leaves transcript schema answers
      (Node.settled generator.options.container schema answers))
    (hreference : (Node.settled generator.options.container schema answers).NoReference) :
    generator.Decided transcript schema answers
      (Node.settled generator.options.container schema answers)
      ((Node.settled generator.options.container schema answers).direct
        generator.options.container) := by
  have hbare := Node.bare_settled generator.options.container h hc
  constructor
  case leaves => exact hleaves
  case typed => exact Node.resolveComposites_resolvePrimitives _ hreference
  case literals => exact Node.literals_direct _ hbare
  case explained =>
    intro position object hobject
    obtain ⟨written, spliced, hwritten, hexplains⟩ :=
      Node.explains_settled generator.options.container h hc hobject
    refine ⟨written, spliced, hwritten, hexplains, fun other hother => ?_⟩
    rw [Schema.writtenAt_congr schema hother, hwritten]
  case owned =>
    intro site hsite
    obtain ⟨hobject, howners⟩ := Node.at_of_mem_sites hsite
    refine ⟨hobject, fun inner owner outer ho => ⟨howners owner ?_, ?_⟩⟩
    · rw [ho]
      exact List.mem_append_right _ List.mem_cons_self
    · exact Node.owns_of_mem_sites hbare hsite ho

theorem value_resolveAll_cons {generator : Generator σ} {name : String} {node : Node}
    {rest nodes : List (String × Node)} {state after : σ}
    (h : (outcome (generator.resolveAll ((name, node) :: rest)) state).value
      = (.ok nodes, after)) :
    ∃ first middle others, (outcome (generator.resolve node) state).value = (.ok first, middle)
      ∧ (outcome (generator.resolveAll rest) middle).value = (.ok others, after)
      ∧ nodes = (name, first) :: others := by
  rw [resolveAll, Steps.value_outcome_bind] at h
  rcases hfirst : (outcome (generator.resolve node) state).value with ⟨error | first, middle⟩
  · rw [hfirst] at h
    cases h
  · rw [hfirst] at h
    simp only [Steps.value_outcome_bind] at h
    rcases hrest : (outcome (generator.resolveAll rest) middle).value with ⟨error | others, last⟩
    · rw [hrest] at h
      cases h
    · rw [hrest] at h
      cases h
      exact ⟨first, middle, others, rfl, hrest, rfl⟩

theorem decided_of_resolveAll {generator : Generator σ} {definitions : List (String × Schema)}
    (h : ∀ entry ∈ definitions, entry.2.Distinct) {state after : σ} {before transcript : Transcript}
    {nodes : List (String × Node)}
    (hrun : (outcome (generator.recorded.resolveAll
      (definitions.map fun (name, schema) => (name, .ofSchema schema))) (state, before)).value
        = (.ok nodes, after, transcript)) :
    before <+: transcript ∧ List.Forall₂ (fun entry node => ∃ answers tree type,
      node = (entry.1, .resolved type) ∧ generator.Decided transcript entry.2 answers tree type)
      definitions nodes := by
  induction definitions generalizing state before nodes with
  | nil =>
    cases hrun
    exact ⟨List.prefix_rfl, .nil⟩
  | cons entry rest ih =>
    obtain ⟨first, ⟨middle, so⟩, others, hfirst, hothers, rfl⟩ := value_resolveAll_cons hrun
    obtain ⟨hbefore, answers, hcover, hleaves, hnode, hreference⟩ :=
      leaves_of_resolve (h entry (by simp)) hfirst
    obtain ⟨hso, hrest⟩ := ih (fun entry he => h entry (by simp [he])) hothers
    refine ⟨hbefore.trans hso, .cons ⟨answers, _, _, ?_,
      decided_of_leaves (h entry (by simp)) hcover (hleaves transcript hso) hreference⟩ hrest⟩
    rw [hnode, Node.resolveComposites_resolvePrimitives generator.options.container hreference]

/-- Whether a property is optional, and its description, is decided by the answer about it, and by
what is written beside it where there is none. That goes for every object of every tree that a run
without failure leaves; in the types, properties are required further only where the whole literal is
the type of a member of an object that requires them. -/
theorem own_answer_decides_property (generator : Generator σ)
    {definitions : List (String × Schema)} (h : ∀ entry ∈ definitions, entry.2.Distinct)
    {state after : σ} {nodes : List (String × Node)}
    (hrun : (outcome (generator.resolveAll
      (definitions.map fun (name, schema) => (name, .ofSchema schema))) state).value
        = (.ok nodes, after)) :
    (∃ transcript, (outcome (generator.recorded.resolveAll
        (definitions.map fun (name, schema) => (name, .ofSchema schema))) (state, [])).value
          = (.ok nodes, after, transcript)
      ∧ List.Forall₂ (fun entry node => ∃ answers tree type, node = (entry.1, .resolved type)
        ∧ generator.Decided transcript entry.2 answers tree type) definitions nodes)
    ∧ ∀ (schema : SchemaNode) (types : List TypeExpr),
      types.length = (schema.properties.getD []).length →
      (Node.ownObject schema types).properties.map Property.face = schema.ownFaces := by
  refine ⟨?_, fun schema types => Node.faces_ownObject⟩
  have hforgets := congrArg Noted.value (outcome_recorded_resolveAll generator
    (definitions.map fun (name, schema) => (name, .ofSchema schema)) state [])
  rw [Noted.value_map, hrun] at hforgets
  rcases hrecorded : (outcome (generator.recorded.resolveAll
    (definitions.map fun (name, schema) => (name, .ofSchema schema))) (state, [])).value with
    ⟨result, last, transcript⟩
  rw [hrecorded] at hforgets
  cases hforgets
  exact ⟨transcript, hrecorded, (decided_of_resolveAll h hrecorded).2⟩

/-- A member, a date, and a reference; only the name in the member is required. -/
def taggedDefinitions : List (String × Schema) :=
  [("Pet", { required := some ["name"]
             properties := some [("born", { type := some "string", format := some "date" }),
               ("tag", { ref := some "#/definitions/Tag", description := some "Tag" })]
             allOf := some [{ properties := some [("name", { type := some "string" })] }] })]

def taggedType : TypeExpr :=
  .intersection [.object ⟨[⟨"name", .any, false, some "any"⟩], none⟩,
    .object ⟨[⟨"born", .openDictionary, false, none⟩,
      ⟨"tag", .reference "definitions" "Tag", true, some "Tag"⟩], none⟩]

theorem taggedDefinitions_distinct : ∀ entry ∈ taggedDefinitions, entry.2.Distinct := by
  intro entry he
  obtain rfl := List.mem_singleton.1 he
  refine .mk (by decide) fun child hc => ?_
  have hc : child ∈ [_, _, _] := hc
  simp only [List.mem_cons, List.not_mem_nil, or_false] at hc
  rcases hc with rfl | rfl | rfl
  · exact Schema.distinct_of_children_eq_nil rfl
  · exact Schema.distinct_of_children_eq_nil rfl
  · refine .mk (by decide) fun child hc => ?_
    obtain rfl := List.mem_singleton.1 hc
    exact Schema.distinct_of_children_eq_nil rfl

/-- The name is answered to be optional, and is required in the type because its owner requires it;
the date is not required as it is written, but as it is answered. -/
theorem own_answer_decides_property_tagged :
    (∀ entry ∈ taggedDefinitions, entry.2.Distinct)
    ∧ (outcome (resolveAll { mapper := some countingHook }
      (taggedDefinitions.map fun (name, schema) => (name, .ofSchema schema))) 0).value
        = (.ok [("Pet", Node.resolved taggedType)], 2)
    ∧ ∃ transcript, List.Forall₂ (fun entry node => ∃ answers tree type,
      node = (entry.1, .resolved type)
        ∧ Decided { mapper := some countingHook } transcript entry.2 answers tree type)
      taggedDefinitions [("Pet", Node.resolved taggedType)] := by
  have hrun : (outcome (resolveAll { mapper := some countingHook }
      (taggedDefinitions.map fun (name, schema) => (name, .ofSchema schema))) 0).value
        = (.ok [("Pet", Node.resolved taggedType)], 2) := by
    cbv
  obtain ⟨⟨transcript, -, hdecided⟩, -⟩ :=
    own_answer_decides_property { mapper := some countingHook } taggedDefinitions_distinct hrun
  exact ⟨taggedDefinitions_distinct, hrun, transcript, hdecided⟩

end Generator
end SchemaTypes
