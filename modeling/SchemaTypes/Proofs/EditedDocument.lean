import SchemaTypes.Proofs.Distinct
import SchemaTypes.Proofs.Editing

/-! A run with a hook gives what a run without one gives on the edited document. -/
namespace SchemaTypes

open Steps

variable {σ : Type}

namespace Draft

/-- What an edit keeps up: the schemas in it have no reference, name every property once, and what
they keep of the descriptions is what stands in the properties. -/
inductive IsSound : Draft → Prop where
  | edited {keywords : Keywords Draft} (ref : keywords.ref = none)
      (names : (Assoc.keys (keywords.properties.getD [])).Nodup)
      (docs : ∀ entry ∈ keywords.properties.getD [],
        Assoc.find? entry.1 keywords.docs = entry.2.description)
      (below : ∀ child ∈ keywords.children, child.IsSound) : IsSound (.edited keywords)
  | written (schema : Schema) : IsSound (.written schema)
  | verbatim (text : String) (description : Option String) : IsSound (.verbatim text description)

theorem noReference_shown (container : String) {draft : Draft} (h : draft.IsSound) :
    (draft.shown container).NoReference := by
  induction draft using Draft.induction with
  | edited keywords ih =>
    cases h with
    | edited ref _ _ below =>
      rw [shown_edited]
      refine .pending ref fun child hc => ?_
      rw [Keywords.children_map] at hc
      obtain ⟨old, ho, rfl⟩ := List.mem_map.1 hc
      exact ih old ho (below old ho)
  | written schema => exact Node.noReference_resolveReferences ..
  | verbatim text description => exact .resolved _

/-- Of the descriptions that a schema keeps, only those of its own properties count. -/
theorem typeOf_congr_docs (container : String) {schema : Keywords TypeExpr}
    {docs : List (String × String)} (h : ∀ entry ∈ schema.properties.getD [],
      Assoc.find? entry.1 docs = Assoc.find? entry.1 schema.docs) :
    Keywords.typeOf container { schema with docs } = schema.typeOf container := by
  have hown : Keywords.ownLiteral { schema with docs } = schema.ownLiteral := by
    refine congrArg₂ ObjectType.mk (List.map_congr_left fun entry he => ?_) rfl
    obtain ⟨name, type⟩ := entry
    exact congrArg (Property.mk name type _) (h (name, type) he)
  unfold Keywords.typeOf Keywords.objectType Keywords.conjuncts
  rw [hown]
  rfl

/-- What a hook is shown and the tree of the edited document have the same type. -/
theorem direct_shown (container : String) {draft : Draft} (h : draft.IsSound) :
    (draft.shown container).direct container = draft.toNode.direct container := by
  induction draft using Draft.induction with
  | edited keywords ih =>
    cases h with
    | edited _ names docs below =>
      have hchildren : keywords.map (Node.direct container ∘ shown container)
          = keywords.map (Node.direct container ∘ toNode) :=
        Keywords.map_congr fun child hc => ih child hc (below child hc)
      rw [shown_edited, toNode_edited, Node.direct_pending, Node.direct_pending, Keywords.map_map,
        hchildren, ← Keywords.map_map]
      refine (typeOf_congr_docs container fun entry he => ?_).symm
      obtain ⟨property, hp, hname⟩ : ∃ property ∈ keywords.properties.getD [],
          property.1 = entry.1 := by
        cases hps : keywords.properties with
        | none => simp [hps] at he
        | some entries =>
          simp only [Keywords.map_properties, hps, Option.map_some, Option.getD_some, List.map_map,
            List.mem_map, Function.comp_apply] at he
          obtain ⟨property, hp, rfl⟩ := he
          exact ⟨property, hp, rfl⟩
      rw [← hname, find?_describedBy description names hp]
      exact (docs property hp).symm
  | written schema => exact Node.direct_resolveReferences ..
  | verbatim text description => rfl

theorem isSound_answered {property : Keywords Draft} (h : (edited property).IsSound)
    (mapping : PropertyMapping) :
    (answered property mapping).IsSound
      ∧ (answered property mapping).description = mapping.description := by
  cases h with
  | edited ref names docs below =>
    unfold answered
    split
    · exact ⟨.edited ref names docs below, rfl⟩
    · split
      · exact ⟨.edited ref names docs below, rfl⟩
      · exact ⟨.edited ref names docs below, rfl⟩
      · exact ⟨.written _, rfl⟩
      · exact ⟨.verbatim _ _, rfl⟩

/-- Each answer is recorded under the name of its own property, and under no other name. -/
theorem ensures_offerProperties (mapper : Mapper σ) (container : String) (owner : Node.Owner)
    {entries : List (String × Draft)} (names : (Assoc.keys entries).Nodup)
    (sound : ∀ entry ∈ entries, entry.2.IsSound)
    (docs : ∀ entry ∈ entries, Assoc.find? entry.1 owner.docs = entry.2.description) :
    Ensures (offerProperties mapper container owner entries)
      (fun result => Assoc.keys result.2 = Assoc.keys entries
        ∧ (∀ entry ∈ result.2, entry.2.IsSound)
        ∧ (∀ entry ∈ result.2, Assoc.find? entry.1 result.1.docs = entry.2.description)
        ∧ ∀ k ∉ Assoc.keys entries, Assoc.find? k result.1.docs = Assoc.find? k owner.docs)
      (fun _ => True) (fun _ => True) := by
  induction entries generalizing owner with
  | nil => exact .pure ⟨rfl, by simp, by simp, fun _ _ => rfl⟩
  | cons entry rest ih =>
    obtain ⟨name, draft⟩ := entry
    obtain ⟨hname, hnames⟩ := List.nodup_cons.1 names
    have hsound : ∀ entry ∈ rest, entry.2.IsSound := fun entry he => sound entry (by simp [he])
    have hne : ∀ entry ∈ rest, entry.1 ≠ name := by
      rintro entry he rfl
      exact hname (List.mem_map.2 ⟨entry, he, rfl⟩)
    have hstep (newOwner : Node.Owner) (new : Draft) (hnew : new.IsSound)
        (hown : Assoc.find? name newOwner.docs = new.description)
        (hold : ∀ k ≠ name, Assoc.find? k newOwner.docs = Assoc.find? k owner.docs) :
        Ensures (do
          let result ← offerProperties mapper container newOwner rest
          return (result.1, (name, new) :: result.2))
          (fun result => Assoc.keys result.2 = name :: Assoc.keys rest
            ∧ (∀ entry ∈ result.2, entry.2.IsSound)
            ∧ (∀ entry ∈ result.2, Assoc.find? entry.1 result.1.docs = entry.2.description)
            ∧ ∀ k ∉ name :: Assoc.keys rest,
              Assoc.find? k result.1.docs = Assoc.find? k owner.docs)
          (fun _ => True) (fun _ => True) := by
      have hdocs : ∀ entry ∈ rest, Assoc.find? entry.1 newOwner.docs = entry.2.description := by
        intro entry he
        rw [hold _ (hne entry he)]
        exact docs entry (by simp [he])
      refine (ih newOwner hnames hsound hdocs).bind fun result hresult => .pure ?_
      obtain ⟨hkeys, hs, hd, hother⟩ := hresult
      refine ⟨by simp only [Assoc.keys, List.map_cons] at hkeys ⊢; rw [hkeys], ?_, ?_, ?_⟩
      · exact List.forall_mem_cons.2 ⟨hnew, hs⟩
      · exact List.forall_mem_cons.2 ⟨(hother name hname).trans hown, hd⟩
      · intro k hk
        obtain ⟨hkn, hkr⟩ := not_or.1 fun h => hk (List.mem_cons.2 h)
        exact (hother k hkr).trans (hold k hkn)
    have hentry := docs (name, draft) (by simp)
    cases draft with
    | edited property =>
      refine (Ensures.trivial _).bind fun mapping _ => ?_
      obtain ⟨hnew, hdescription⟩ := isSound_answered (sound (name, .edited property) (by simp)) mapping
      refine hstep _ _ hnew ?_ fun k hk => ?_
      · rw [find?_describe, if_pos rfl, hdescription]
      · rw [find?_describe, if_neg hk]
    | written schema => exact hstep owner _ (.written schema) hentry fun _ _ => rfl
    | verbatim text description =>
      exact hstep owner _ (.verbatim text description) hentry fun _ _ => rfl

theorem ensures_offer_of_isSound (mapper : Mapper σ) (container : String) {keywords : Keywords Draft}
    (h : (edited keywords).IsSound) :
    Ensures (offer mapper container keywords)
      (fun draft => draft.description = keywords.description ∧ draft.IsSound)
      (fun _ => True) (fun _ => True) := by
  cases h with
  | edited ref names docs below =>
    unfold offer
    split
    next entries _ hentries =>
      rw [hentries] at names docs
      have hsound : ∀ entry ∈ entries, entry.2.IsSound := fun entry he =>
        below entry.2 (Keywords.mem_children_of_mem_properties (by simpa [hentries] using he))
      refine (ensures_offerProperties mapper container _ names hsound docs).bind
        fun result hresult => .pure ⟨rfl, ?_⟩
      obtain ⟨hkeys, hs, hd, _⟩ := hresult
      refine .edited ref (hkeys ▸ names) hd fun child hc => ?_
      rcases Keywords.mem_children_of_properties hc with ⟨entry, he, rfl⟩ | hc
      · exact hs entry he
      · exact below child hc
    next => exact .pure ⟨rfl, .edited ref names docs below⟩

/-- An edit keeps the description of a schema, which only its owner is asked about. -/
theorem ensures_edit_of_distinct (mapper : Mapper σ) (container : String) {schema : Schema}
    (h : schema.Distinct) :
    Ensures (schema.edit mapper container)
      (fun draft => draft.description = schema.description ∧ draft.IsSound)
      (fun _ => True) (fun _ => True) := by
  induction schema using Schema.induction with
  | step schema ih =>
    cases h with
    | mk here below =>
      cases hr : schema.ref with
      | some pointer =>
        rw [Schema.edit_of_ref mapper container hr]
        exact .pure ⟨rfl, .written schema⟩
      | none =>
        rw [Schema.edit_of_ref_eq_none mapper container hr]
        refine (Ensures.mapChildrenM_view fun child hc => ih child hc (below child hc)).bind
          fun keywords hkeywords => ?_
        obtain ⟨hview, hsound⟩ := hkeywords
        have hnames : (Assoc.keys (keywords.properties.getD [])).Nodup := by
          rw [← Keywords.keys_properties_map description, hview, Keywords.keys_properties_map]
          exact here
        have hdocs : describedBy description keywords.properties = keywords.docs := by
          have hsame := congrArg (describedBy id) (congrArg Keywords.properties hview)
          rw [Keywords.map_properties, Keywords.map_properties,
            describedBy_map fun _ _ => rfl, describedBy_map fun _ _ => rfl] at hsame
          exact hsame.trans (congrArg Keywords.docs hview).symm
        have hdescription : keywords.description = schema.description :=
          congrArg Keywords.description hview
        rw [← hdescription]
        refine ensures_offer_of_isSound mapper container (.edited ?_ hnames ?_ hsound)
        · exact (congrArg Keywords.ref hview).trans hr
        · intro entry he
          rw [← hdocs, find?_describedBy description hnames he]

end Draft

namespace Generator

/-- Edits the definitions of a document in their order. -/
def editAll (mapper : Mapper σ) (container : String) (definitions : List (String × Schema)) :
    Asking σ (List (String × Draft)) :=
  definitions.mapM fun entry => (entry.1, ·) <$> entry.2.edit mapper container

theorem quiet_asking_congr {α : Type} {steps other : Asking σ α} (h : quiet steps = quiet other) :
    quiet (asking steps) = quiet (asking other) := by
  funext state
  show (outcome (asking steps) state).value = (outcome (asking other) state).value
  rw [value_outcome_asking, value_outcome_asking, outcome_eq_of_quiet_eq h]

theorem quiet_asking_bind {α β : Type} (steps : Asking σ α) (next : α → Asking σ β) :
    quiet (asking (steps >>= next)) = quiet (asking steps >>= fun a => asking (next a)) := by
  funext state
  show (outcome _ state).value = (outcome _ state).value
  rw [value_outcome_asking, value_outcome_bind, value_outcome_bind, value_outcome_asking]
  rcases (outcome steps state).value with ⟨_ | a, after⟩
  · rfl
  · exact (value_outcome_asking (next a) after).symm

theorem quiet_asking_map {α β : Type} (f : α → β) (steps : Asking σ α) :
    quiet (asking (f <$> steps)) = f <$> quiet (asking steps) := by
  rw [← bind_pure_comp, quiet_asking_bind, ← quiet_map, ← bind_pure_comp]
  rfl

/-- Without a hook every tree gets its type. -/
theorem quiet_resolve_of_none {generator : Generator σ} (h : generator.mapper = none) (node : Node) :
    quiet (generator.resolve node) = pure (.resolved (node.direct generator.options.container)) := by
  unfold resolve
  simp only [h, quiet_bind, quiet_lift, pure_bind]
  rw [Node.resolveComposites_resolvePrimitives generator.options.container
    (Node.noReference_resolveReferences ..), Node.direct_resolveReferences]

/-- With a hook a schema gets the type of the edited one. -/
theorem quiet_resolve_of_some {generator : Generator σ} {mapper : Mapper σ}
    (h : generator.mapper = some mapper) {schema : Schema} (hd : schema.Distinct) :
    quiet (generator.resolve (.ofSchema schema))
      = (fun draft => .resolved (draft.toNode.direct generator.options.container))
        <$> quiet (asking (schema.edit mapper generator.options.container)) := by
  have hpass := quiet_asking_congr ((Schema.applyMapper_ofSchema mapper
    generator.options.container schema).trans (quiet_map _ _).symm)
  have hedit := ensures_asking
    (Draft.ensures_edit_of_distinct mapper generator.options.container hd)
  unfold resolve
  simp only [h, quiet_bind, quiet_lift, pure_bind]
  calc quiet (asking (Node.applyMapper mapper generator.options.container
          (Node.resolveReferences generator.options.container (.ofSchema schema)).value))
        >>= (fun node => pure (Node.resolveComposites (Node.resolvePrimitives node)).value)
      = quiet (asking (schema.edit mapper generator.options.container) >>= fun draft =>
          pure (Node.resolveComposites (Node.resolvePrimitives
            (draft.shown generator.options.container))).value) := by
        rw [hpass, quiet_asking_map, bind_map_left, quiet_bind]
        rfl
    _ = quiet (asking (schema.edit mapper generator.options.container) >>= fun draft =>
          pure (.resolved (draft.toNode.direct generator.options.container))) :=
        hedit.quiet_bind_congr fun draft hdraft => by
          rw [Node.resolveComposites_resolvePrimitives generator.options.container
            (Draft.noReference_shown _ hdraft.2), Draft.direct_shown _ hdraft.2]
    _ = (fun draft => .resolved (draft.toNode.direct generator.options.container))
          <$> quiet (asking (schema.edit mapper generator.options.container)) := by
        rw [bind_pure_comp, quiet_map]

theorem quiet_asking_editAll_cons (mapper : Mapper σ) (container name : String) (schema : Schema)
    (rest : List (String × Schema)) :
    quiet (asking (editAll mapper container ((name, schema) :: rest)))
      = quiet (asking (schema.edit mapper container)) >>= fun draft =>
          (fun drafts => (name, draft) :: drafts)
            <$> quiet (asking (editAll mapper container rest)) := by
  have hcons : editAll mapper container ((name, schema) :: rest)
      = schema.edit mapper container >>= fun draft =>
          (fun drafts => (name, draft) :: drafts) <$> editAll mapper container rest := by
    simp [editAll]
  rw [hcons, quiet_asking_bind, quiet_bind]
  exact bind_congr fun draft => quiet_asking_map _ _

theorem quiet_resolveAll_of_none {generator : Generator σ} (h : generator.mapper = none)
    (nodes : List (String × Node)) :
    quiet (generator.resolveAll nodes) = pure (nodes.map fun entry =>
      (entry.1, .resolved (entry.2.direct generator.options.container))) := by
  induction nodes with
  | nil => rfl
  | cons entry rest ih =>
    simp only [resolveAll, quiet_bind, quiet_resolve_of_none h, ih, pure_bind, quiet_pure,
      List.map_cons]

theorem quiet_resolveAll_of_some {generator : Generator σ} {mapper : Mapper σ}
    (h : generator.mapper = some mapper) {definitions : List (String × Schema)}
    (hd : ∀ entry ∈ definitions, entry.2.Distinct) :
    quiet (generator.resolveAll (definitions.map fun entry => (entry.1, .ofSchema entry.2)))
      = (fun drafts => drafts.map fun entry =>
          (entry.1, .resolved (entry.2.toNode.direct generator.options.container)))
        <$> quiet (asking (editAll mapper generator.options.container definitions)) := by
  induction definitions with
  | nil => rfl
  | cons entry rest ih =>
    obtain ⟨name, schema⟩ := entry
    have hrest := ih fun entry he => hd entry (by simp [he])
    have hfirst := quiet_resolve_of_some h (hd (name, schema) (by simp))
    simp only [List.map_cons, resolveAll, quiet_bind, hfirst, hrest, quiet_asking_editAll_cons,
      quiet_pure, map_eq_pure_bind, bind_assoc, pure_bind]

/-- The definitions of the edited document as trees, text of the target language among them. -/
def trees (drafts : List (String × Draft)) : List (String × Node) :=
  drafts.map fun entry => (entry.1, entry.2.toNode)

/-- The definitions of the edited document as schemas. -/
def schemas (drafts : List (String × Draft)) : List (String × Schema) :=
  drafts.map fun entry => (entry.1, entry.2.toSchema)

/-- The run on definitions that are trees already. -/
def generateTrees (generator : Generator σ) (definitions : List (String × Node)) :
    Generating σ String := do
  let source ← generator.sourceOf definitions
  formatting (generator.formatter source .standard)

/-- The source that a hook leads to is the source of the edited definitions. -/
theorem quiet_source_of_some (generator : Generator σ) (mapper : Mapper σ)
    {definitions : List (String × Schema)} (hd : ∀ entry ∈ definitions, entry.2.Distinct) :
    quiet ({ generator with mapper := some mapper }.source ⟨some definitions⟩)
      = quiet (asking (editAll mapper generator.options.container definitions)) >>= fun drafts =>
          quiet ({ generator with mapper := none }.sourceOf (trees drafts)) := by
  have hsome := @quiet_resolveAll_of_some _ { generator with mapper := some mapper } _ rfl _ hd
  have hnone := @quiet_resolveAll_of_none _ { generator with mapper := none } rfl
  simp only [source, sourceOf, quiet_bind, quiet_lift, pure_bind, hsome, hnone, bind_map_left,
    trees, List.map_map, Function.comp_def]

theorem generate_schemas (generator : Generator σ) {drafts : List (String × Draft)}
    (h : ∀ entry ∈ drafts, entry.2.IsSchema) :
    generator.generate ⟨some (schemas drafts)⟩ = generator.generateTrees (trees drafts) := by
  have htrees : ((schemas drafts).map fun entry => (entry.1, Node.ofSchema entry.2))
      = trees drafts := by
    simp only [schemas, trees, List.map_map]
    refine List.map_congr_left fun entry he => ?_
    exact congrArg (entry.1, ·) (Draft.ofSchema_toSchema (h entry he))
  simp only [generate, source, generateTrees, htrees]

/-- Mapping properties is editing the document. A run with a hook fails where the edit fails, and
otherwise gives what a run without a hook gives on the edited definitions, from the state in which
the edit leaves the hooks: on their trees, where text of the target language stands as it is, and on
the document itself if there is no such text. -/
theorem mapping_eq_editing (generator : Generator σ) (mapper : Mapper σ)
    (definitions : List (String × Schema)) (h : ∀ entry ∈ definitions, entry.2.Distinct)
    (state : σ) :
    (∀ message after,
      (outcome (editAll mapper generator.options.container definitions) state).value
        = (.error message, after) →
      (outcome ({ generator with mapper := some mapper }.generate ⟨some definitions⟩) state).value
        = (.error (.mapper message), after))
    ∧ (∀ drafts after,
      (outcome (editAll mapper generator.options.container definitions) state).value
        = (.ok drafts, after) →
      (outcome ({ generator with mapper := some mapper }.generate ⟨some definitions⟩) state).value
        = (outcome ({ generator with mapper := none }.generateTrees (trees drafts)) after).value
      ∧ ((∀ entry ∈ drafts, entry.2.IsSchema) →
        (outcome ({ generator with mapper := some mapper }.generate ⟨some definitions⟩) state).value
          = (outcome ({ generator with mapper := none }.generate ⟨some (schemas drafts)⟩)
              after).value))
    ∧ (outcome ({ generator with mapper := some mapper }.generate ⟨none⟩) state).value
      = (outcome ({ generator with mapper := none }.generate ⟨none⟩) state).value := by
  have hgenerate : quiet ({ generator with mapper := some mapper }.generate ⟨some definitions⟩)
      = quiet (asking (editAll mapper generator.options.container definitions) >>= fun drafts =>
          { generator with mapper := none }.generateTrees (trees drafts)) := by
    simp only [generate, generateTrees, quiet_bind, quiet_source_of_some generator mapper h,
      bind_assoc]
  have hrun := outcome_eq_of_quiet_eq hgenerate state
  rw [value_outcome_bind, value_outcome_asking] at hrun
  refine ⟨fun message after hedit => ?_, fun drafts after hedit => ?_, rfl⟩
  · rw [hrun, hedit]
    rfl
  · have hdrafts : (outcome ({ generator with mapper := some mapper }.generate ⟨some definitions⟩)
        state).value = (outcome ({ generator with mapper := none }.generateTrees (trees drafts))
          after).value := by
      rw [hrun, hedit]
      rfl
    refine ⟨hdrafts, fun hschema => ?_⟩
    rw [hdrafts, generate_schemas _ hschema]

/-- A hook that counts its calls: dates become objects of the other optionality, and everything else
loses its type and gets a description. -/
def countingHook : Mapper Nat := fun schema context calls =>
  (.ok (if schema.format = some "date" then ⟨some " object ", !context.optional, context.description⟩
    else ⟨none, calls == 0, some "any"⟩), calls + 1)

def petDefinitions : List (String × Schema) :=
  [("Pet", { type := some "object", required := some ["tag", "name"]
             properties := some [("age", { type := some "string", format := some "date" }),
               ("tag", { type := some "string", description := some "Tag" })] })]

def petDrafts : List (String × Draft) :=
  [("Pet", .edited { type := some "object", required := ⟨["tag", "name", "age"], by decide⟩
                     properties := some [("age", .edited { type := some "object", format := some "date" }),
                       ("tag", .edited { description := some "any" })]
                     docs := [("tag", "any")] })]

theorem petDefinitions_distinct : ∀ entry ∈ petDefinitions, entry.2.Distinct := by
  intro entry he
  obtain rfl := List.mem_singleton.1 he
  refine .mk (by decide) fun child hc => Schema.distinct_of_children_eq_nil ?_
  have hc : child ∈ [_, _] := hc
  rcases List.mem_pair.1 hc with rfl | rfl <;> rfl

theorem petDrafts_isSchema : ∀ entry ∈ petDrafts, entry.2.IsSchema := by
  intro entry he
  obtain rfl := List.mem_singleton.1 he
  refine .edited fun child hc => ?_
  have hc : child ∈ [_, _] := hc
  rcases List.mem_pair.1 hc with rfl | rfl <;> exact .edited (by rintro _ ⟨⟩)

/-- Two calls of the hook, and the document that they edit. -/
theorem mapping_eq_editing_countingHook :
    (∀ entry ∈ petDefinitions, entry.2.Distinct)
    ∧ (outcome (editAll countingHook "definitions" petDefinitions) 0).value = (.ok petDrafts, 2)
    ∧ (outcome (generate { mapper := some countingHook } ⟨some petDefinitions⟩) 0).value
      = (outcome (generate {} ⟨some (schemas petDrafts)⟩) 2).value := by
  refine ⟨petDefinitions_distinct, rfl, ?_⟩
  have hruns := (mapping_eq_editing {} countingHook petDefinitions petDefinitions_distinct 0).2.1
  exact (hruns petDrafts 2 rfl).2 petDrafts_isSchema

end Generator
end SchemaTypes
