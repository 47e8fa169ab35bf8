import Mathlib
import SchemaTypes.Proofs.Evolution
import SchemaTypes.Proofs.TreeQuestions

/-! Passes over a tree in any order, as often as one likes. What one pass resolves is left alone by
all later ones, and what is still a schema keeps its structure, unless a hook answers with something
else to put in its place. -/
namespace SchemaTypes

open Steps (outcome)

variable {ε σ α β : Type}

/-! ### Calls that steps add to a transcript -/

/-- Steps that end with a value only add calls to their transcript, which are good for the value. -/
def Records (steps : Steps ε (σ × Transcript) α) (good : Transcript → α → Prop) : Prop :=
  ∀ ⦃state before last transcript a⦄,
    (outcome steps (state, before)).value = (.ok a, last, transcript) →
    ∃ calls, transcript = before ++ calls ∧ good calls a

namespace Records

variable {good : Transcript → α → Prop} {better : Transcript → β → Prop}

theorem pure {a : α} (h : good [] a) : Records (Pure.pure a : Steps ε (σ × Transcript) α) good := by
  intro state before last transcript b hrun
  cases hrun
  exact ⟨[], (List.append_nil before).symm, h⟩

theorem bind {steps : Steps ε (σ × Transcript) α} {next : α → Steps ε (σ × Transcript) β}
    (h : Records steps good)
    (hn : ∀ calls a, good calls a → Records (next a) fun others => better (calls ++ others)) :
    Records (steps >>= next) better := by
  intro state before last transcript b hrun
  rw [Steps.value_outcome_bind] at hrun
  rcases hsteps : (outcome steps (state, before)).value with ⟨_ | a, middle, halfway⟩
  · rw [hsteps] at hrun
    cases hrun
  · rw [hsteps] at hrun
    obtain ⟨calls, rfl, hgood⟩ := h hsteps
    obtain ⟨others, rfl, hbetter⟩ := hn calls a hgood hrun
    exact ⟨calls ++ others, List.append_assoc before calls others, hbetter⟩

theorem weaken {steps : Steps ε (σ × Transcript) α} {fine : Transcript → α → Prop}
    (h : Records steps good) (hf : ∀ calls a, good calls a → fine calls a) :
    Records steps fine := by
  intro state before last transcript a hrun
  obtain ⟨calls, hcalls, hgood⟩ := h hrun
  exact ⟨calls, hcalls, hf calls a hgood⟩

theorem map {steps : Steps ε (σ × Transcript) α} {f : α → β} (h : Records steps good)
    (hf : ∀ calls a, good calls a → better calls (f a)) : Records (f <$> steps) better := by
  rw [← bind_pure_comp]
  apply h.bind
  intro calls a hgood
  apply pure
  rw [List.append_nil]
  exact hf calls a hgood

theorem lift_bind {x : Noted β} {next : β → Steps ε (σ × Transcript) α}
    (h : Records (next x.value) good) :
    Records ((liftM x : Steps ε (σ × Transcript) β) >>= next) good := by
  intro state before last transcript a hrun
  rw [Steps.value_outcome_bind, Steps.value_outcome_lift] at hrun
  exact h hrun

theorem mapM {f : α → Steps ε (σ × Transcript) β} {good : α → Transcript → β → Prop} {as : List α}
    (h : ∀ a ∈ as, Records (f a) (good a)) : Records (as.mapM f) (Dealt good as) := by
  induction as with
  | nil => exact pure .nil
  | cons a rest ih =>
    have hrest := ih fun a ha => h a (List.mem_cons_of_mem _ ha)
    rw [List.mapM_cons]
    apply (h a List.mem_cons_self).bind
    intro calls b hb
    rw [bind_pure_comp]
    apply hrest.map
    intro others bs hbs
    exact .cons hb hbs

theorem ask (mapper : Mapper σ) (property : SchemaNode) (context : PropertyContext) :
    Records (mapper.recorded.ask property context) fun calls mapping =>
      calls = [⟨.ofProperty property context, .ok mapping⟩] := by
  intro state before last transcript mapping hrun
  have houtcome : (outcome (mapper.recorded.ask property context) (state, before)).value
      = let run := (mapper property context state : Except String PropertyMapping × σ)
        (run.1, run.2, before ++ [⟨.ofProperty property context, run.1⟩]) := rfl
  rw [houtcome] at hrun
  obtain ⟨hresult, hends⟩ := Prod.mk.inj hrun
  obtain ⟨-, htranscript⟩ := Prod.mk.inj hends
  rw [← htranscript, hresult]
  exact ⟨_, rfl, rfl⟩

end Records

/-! ### What the answers of a pass replace -/

/-- The answer is a schema or text of its own, and not the type that was asked about. -/
def Exchange.Replaces (exchange : Exchange) : Prop :=
  ∃ mapping text, exchange.result = .ok mapping ∧ mapping.type = some text
    ∧ exchange.question.type ≠ some text ∧ ∀ type, Fragment.ofText text ≠ .declared type

/-- The positions that calls about them, in this order, replace. -/
def Replaced (positions : List Position) (calls : Transcript) (position : Position) : Prop :=
  ∃ exchange, (position, exchange) ∈ positions.zip calls ∧ exchange.Replaces

theorem Replaced.of_left {positions : List Position} {calls : Transcript} {position : Position}
    (h : Replaced positions calls position) (more : List Position) (others : Transcript)
    (count : calls.length = positions.length) :
    Replaced (positions ++ more) (calls ++ others) position := by
  obtain ⟨exchange, hmem, hreplaces⟩ := h
  rw [Replaced, List.zip_append count.symm]
  exact ⟨exchange, List.mem_append_left _ hmem, hreplaces⟩

theorem Replaced.of_right {positions : List Position} {calls : Transcript} {position : Position}
    (h : Replaced positions calls position) (front : List Position) (others : Transcript)
    (count : others.length = front.length) :
    Replaced (front ++ positions) (others ++ calls) position := by
  obtain ⟨exchange, hmem, hreplaces⟩ := h
  rw [Replaced, List.zip_append count.symm]
  exact ⟨exchange, List.mem_append_right _ hmem, hreplaces⟩

theorem Replaced.below {positions : List Position} {calls : Transcript} {position : Position}
    (h : Replaced positions calls position) (edge : Edge) :
    Replaced (positions.map (edge :: ·)) calls (edge :: position) := by
  obtain ⟨exchange, hmem, hreplaces⟩ := h
  refine ⟨exchange, ?_, hreplaces⟩
  rw [List.zip_map_left]
  exact List.mem_map.2 ⟨(position, exchange), hmem, rfl⟩

namespace Node

/-- The positions of the own properties that are asked about: those that are still schemas. -/
def offeredNames (entries : List (String × Node)) : List Position :=
  entries.filterMap fun entry => if entry.2.isResolved then none else some [.property entry.1]

/-- The positions that the step at one schema asks about. -/
def ownOffered (schema : SchemaNode) : List Position :=
  if schema.shape = .object then offeredNames (schema.properties.getD []) else []

/-- The positions of the properties that are asked about, children before their parent. -/
def offered : Node → List Position :=
  fold (fun schema below => (below.edges.flatMap fun child => child.2.map (child.1 :: ·))
      ++ ownOffered schema) fun _ => []

@[simp] theorem offered_resolved (type : TypeExpr) : (resolved type).offered = [] := by
  rw [offered, fold]

theorem offered_pending (schema : SchemaNode) : (pending schema).offered
    = (schema.edges.flatMap fun child => child.2.offered.map (child.1 :: ·))
      ++ ownOffered schema := by
  rw [offered, fold_pending, Keywords.edges_map, List.flatMap_map]

/-! ### One pass with a hook -/

/-- The property stays a schema with its structure, or gets a type, unless something else is put in
its place. -/
theorem evolves_answered (container : String) {replaced : Position → Prop} (property : SchemaNode)
    (context : PropertyContext) (htype : context.type = property.type) (mapping : PropertyMapping)
    (h : Exchange.Replaces ⟨.ofProperty property context, .ok mapping⟩ → replaced []) :
    Evolves replaced (.pending property) (answered container property mapping).value := by
  have hedited (type description : Option String) :
      Evolves replaced (.pending property) (.pending { property with type, description }) := by
    apply Evolves.of_edges
    · exact ⟨rfl, rfl, rfl, rfl, rfl, rfl⟩
    · exact id
    · exact List.forall₂_same.2 fun child _ => ⟨rfl, .refl _ _⟩
  have hanswered := answerLeaves_answered container property mapping
  generalize (answered container property mapping).value = node at hanswered ⊢
  cases hanswered with
  | same => exact hedited property.type mapping.description
  | untyped => exact hedited none mapping.description
  | @known text => exact hedited (some (Text.trim text)) mapping.description
  | verbatim => exact .settled property _
  | @fragment text fragment hne hsome hread =>
    apply Evolves.of_replaced
    · apply h
      refine ⟨mapping, text, rfl, hsome, ?_, by simp [hread]⟩
      rw [← hsome]
      exact fun heq => hne (heq.symm.trans htype)
    · exact Evolves.documented_resolveReferences container (documented_ofSchema _)

theorem mem_keys_docs_record {owner : Owner} {name k : String} {mapping : PropertyMapping}
    (h : k ∈ Assoc.keys (owner.record name mapping).docs) :
    k = name ∨ k ∈ Assoc.keys owner.docs := by
  unfold Owner.record at h
  cases hd : mapping.description with
  | none =>
    rw [hd] at h
    obtain ⟨entry, hentry, rfl⟩ := List.mem_map.1 h
    exact .inr (List.mem_map_of_mem (List.mem_of_mem_filter hentry))
  | some doc =>
    rw [hd] at h
    exact (Assoc.mem_keys_put name doc owner.docs k).1 h

/-- The own properties evolve as they are asked about, and only their names are described. -/
theorem records_mapProperties (mapper : Mapper σ) (container : String) (owner : Owner)
    (entries : List (String × Node)) :
    Records (mapProperties mapper.recorded container owner entries) fun calls result =>
      calls.length = (offeredNames entries).length
      ∧ (∀ name ∈ Assoc.keys result.1.docs,
        name ∈ Assoc.keys owner.docs ∨ name ∈ Assoc.keys entries)
      ∧ List.Forall₂ (fun entry next => entry.1 = next.1
        ∧ Evolves (fun position => Replaced (offeredNames entries) calls
          (.property entry.1 :: position)) entry.2 next.2) entries result.2 := by
  induction entries generalizing owner with
  | nil => exact .pure ⟨rfl, fun name hname => .inl hname, .nil⟩
  | cons entry rest ih =>
    obtain ⟨name, property | type⟩ := entry
    · rw [mapProperties]
      apply (Records.ask mapper property _).bind
      rintro _ mapping rfl
      apply Records.lift_bind
      show Records (mapProperties mapper.recorded container (owner.record name mapping) rest
        >>= fun result => pure (result.1,
          (name, (answered container property mapping).value) :: result.2)) _
      rw [bind_pure_comp]
      apply (ih (owner.record name mapping)).map
      rintro others ⟨after, nexts⟩ ⟨count, hdocs, hnexts⟩
      have hnames : offeredNames ((name, .pending property) :: rest)
          = [[.property name]] ++ offeredNames rest := rfl
      rw [hnames]
      refine ⟨by simp [count], ?_, .cons ⟨rfl, ?_⟩ ?_⟩
      · intro k hk
        have hkeys : k ∈ Assoc.keys ((name, Node.pending property) :: rest)
            ↔ k = name ∨ k ∈ Assoc.keys rest := List.mem_cons
        rw [hkeys]
        rcases hdocs k hk with hrecorded | hrest
        · rcases mem_keys_docs_record hrecorded with rfl | hold
          · exact .inr (.inl rfl)
          · exact .inl hold
        · exact .inr (.inr hrest)
      · apply evolves_answered container property (context owner.required name property) rfl
        intro hreplaces
        exact ⟨_, List.mem_cons_self, hreplaces⟩
      · apply hnexts.imp
        rintro entry next ⟨hname, hevolves⟩
        refine ⟨hname, hevolves.mono fun position hold => ?_⟩
        exact hold.of_right [[.property name]] [_] rfl
    · rw [mapProperties]
      show Records (mapProperties mapper.recorded container owner rest >>= fun result =>
        pure (result.1, (name, Node.resolved type) :: result.2)) _
      rw [bind_pure_comp]
      apply (ih owner).map
      rintro calls ⟨after, nexts⟩ ⟨count, hdocs, hnexts⟩
      refine ⟨count, ?_, .cons ⟨rfl, .refl _ _⟩ hnexts⟩
      intro k hk
      exact (hdocs k hk).imp_right (List.mem_cons_of_mem _)

theorem records_mapObject (mapper : Mapper σ) (container : String) (schema : SchemaNode) :
    Records (mapObject mapper.recorded container schema) fun calls node =>
      calls.length = (ownOffered schema).length ∧ node.isResolved = false
      ∧ Evolves (Replaced (ownOffered schema) calls) (.pending schema) node := by
  unfold mapObject
  split
  next entries hs hp =>
    have hown : ownOffered schema = offeredNames entries := by
      rw [ownOffered, if_pos hs, hp, Option.getD_some]
    show Records (mapProperties mapper.recorded container _ entries >>= fun result => pure _) _
    rw [bind_pure_comp, hown]
    apply (records_mapProperties mapper container _ entries).map
    rintro calls ⟨owner, nexts⟩ ⟨count, hdocs, hnexts⟩
    have hkeys : Assoc.keys nexts = Assoc.keys entries := by
      rw [Assoc.keys, Assoc.keys]
      exact map_eq_map_of_forall₂ hnexts fun entry next hentry => hentry.1.symm
    have hproperties : List.Forall₂ (fun child next : Edge × Node => child.1 = next.1
        ∧ Evolves (fun position => Replaced (offeredNames entries) calls (child.1 :: position))
          child.2 next.2)
        (entries.map fun entry => (.property entry.1, entry.2))
        (nexts.map fun next => (.property next.1, next.2)) := by
      rw [List.forall₂_map_left_iff, List.forall₂_map_right_iff]
      apply hnexts.imp
      rintro entry next ⟨hname, hevolves⟩
      exact ⟨congrArg Edge.property hname, hevolves⟩
    have hothers (others : List (Edge × Node)) : List.Forall₂ (fun child next : Edge × Node =>
        child.1 = next.1 ∧ Evolves (fun position => Replaced (offeredNames entries) calls
          (child.1 :: position)) child.2 next.2) others others :=
      List.forall₂_same.2 fun child _ => ⟨rfl, .refl _ _⟩
    refine ⟨count, rfl, ?_⟩
    apply Evolves.of_edges
    · refine ⟨rfl, rfl, ?_, rfl, rfl, rfl⟩
      simp [hp, hkeys]
    · intro hdescribes name hname
      have hold : name ∈ Assoc.keys schema.docs → name ∈ Assoc.keys entries := by
        have hn := hdescribes name
        rwa [hp, Option.getD_some] at hn
      rw [Option.getD_some, hkeys]
      exact (hdocs name hname).elim hold id
    · simp only [Keywords.edges, hp, Option.getD_some]
      exact List.rel_append (List.rel_append (List.rel_append hproperties (hothers _)) (hothers _))
        (hothers _)
  next hother =>
    have hown : ownOffered schema = [] := by
      unfold ownOffered
      split
      next hs =>
        cases hp : schema.properties with
        | none => rfl
        | some entries => exact absurd hp (hother entries hs)
      next => rfl
    rw [hown]
    exact .pure ⟨rfl, rfl, .refl _ _⟩

theorem ownOffered_congr {schema other : SchemaNode}
    (h : schema.map isResolved = other.map isResolved) : ownOffered schema = ownOffered other := by
  have hnames (schema : SchemaNode) : offeredNames (schema.properties.getD [])
      = ((schema.map isResolved).properties.getD []).filterMap fun entry =>
        if entry.2 then none else some [.property entry.1] := by
    rw [Keywords.getD_properties_map, List.filterMap_map]
    rfl
  rw [ownOffered, ownOffered, ← Keywords.shape_map isResolved, hnames, h,
    Keywords.shape_map, ← hnames]

/-- What becomes of the children of a schema, and the calls about all of them. -/
theorem evolves_of_dealt {children : List (Edge × Node)} {calls : Transcript} {nodes : List Node}
    (h : Dealt (fun child calls node => calls.length = child.2.offered.length
      ∧ node.isResolved = child.2.isResolved
      ∧ Evolves (Replaced child.2.offered calls) child.2 node) children calls nodes) :
    let positions := children.flatMap fun child => child.2.offered.map (child.1 :: ·)
    calls.length = positions.length
    ∧ List.Forall₂ (fun child node => node.isResolved = child.2.isResolved
      ∧ Evolves (fun position => Replaced positions calls (child.1 :: position)) child.2 node)
      children nodes := by
  induction h with
  | nil => exact ⟨rfl, .nil⟩
  | @cons child rest calls others node nodes head tail ih =>
    obtain ⟨count, hresolved, hevolves⟩ := head
    obtain ⟨hcount, hnodes⟩ := ih
    have hlength : calls.length = (child.2.offered.map (child.1 :: ·)).length := by
      rw [count, List.length_map]
    simp only [List.flatMap_cons]
    refine ⟨by rw [List.length_append, List.length_append, hlength, hcount], .cons ⟨hresolved, ?_⟩ ?_⟩
    · apply hevolves.mono
      intro position hold
      exact (hold.below child.1).of_left _ others hlength
    · apply hnodes.imp
      rintro other next ⟨hkept, hnext⟩
      refine ⟨hkept, hnext.mono fun position hold => ?_⟩
      exact hold.of_right _ calls hlength

theorem forall₂_zip_edges {R : Edge × Node → Node → Prop} {children : List (Edge × Node)}
    {nodes : List Node} (h : List.Forall₂ R children nodes) :
    List.Forall₂ (fun child next => child.1 = next.1 ∧ R child next.2) children
      ((children.map Prod.fst).zip nodes) := by
  induction h with
  | nil => exact .nil
  | cons head _ ih => exact .cons ⟨rfl, head⟩ ih

/-- A pass with a hook asks about every position that is offered, in order, and the tree evolves
except where an answer puts something else. -/
theorem records_applyMapper (mapper : Mapper σ) (container : String) (node : Node) :
    Records (applyMapper mapper.recorded container node) fun calls after =>
      calls.length = node.offered.length ∧ after.isResolved = node.isResolved
      ∧ Evolves (Replaced node.offered calls) node after := by
  induction node using Node.induction with
  | resolved type => exact .pure ⟨by simp, rfl, .refl _ _⟩
  | pending schema ih =>
    rw [applyMapper, rebuildM_pending, pure_bind, Keywords.mapChildrenM_eq,
      ← Keywords.map_snd_edges, List.mapM_map, bind_map_left]
    have hchildren : Records
        (schema.edges.mapM fun child => applyMapper mapper.recorded container child.2)
        (Dealt (fun child calls node => calls.length = child.2.offered.length
          ∧ node.isResolved = child.2.isResolved
          ∧ Evolves (Replaced child.2.offered calls) child.2 node) schema.edges) :=
      Records.mapM fun child hc => ih child.2 (Keywords.mem_children_of_mem_edges hc)
    apply hchildren.bind
    intro calls nodes hdealt
    obtain ⟨count, hnodes⟩ := evolves_of_dealt hdealt
    have hlength : nodes.length = schema.children.length := by
      rw [← hnodes.length_eq, Keywords.length_edges]
    have hviews : nodes.map isResolved = schema.children.map isResolved := by
      rw [← Keywords.map_snd_edges, List.map_map]
      exact map_eq_map_of_forall₂ hnodes fun child node hc => hc.1
    -- The own properties are offered after the children, and those that are offered are the same.
    have hown : ownOffered (schema.withChildren nodes) = ownOffered schema := by
      apply ownOffered_congr
      rw [Keywords.map_withChildren, hviews, ← Keywords.map_eq_withChildren]
    have hrebuilt : Evolves (fun position => Replaced
        (schema.edges.flatMap fun child => child.2.offered.map (child.1 :: ·)) calls position)
        (.pending schema) (.pending (schema.withChildren nodes)) := by
      apply Evolves.of_edges
      · exact Keywords.keeps_withChildren hlength
      · intro hdescribes
        unfold Keywords.DescribesOwn
        rw [Keywords.keys_properties_withChildren hlength]
        exact hdescribes
      · rw [Keywords.edges_withChildren hlength]
        apply forall₂_zip_edges
        exact hnodes.imp fun child node hc => hc.2
    have hobject := records_mapObject mapper container (schema.withChildren nodes)
    rw [hown] at hobject
    rw [offered_pending]
    apply hobject.weaken
    rintro others after ⟨hcount, hresolved, hevolves⟩
    refine ⟨by rw [List.length_append, List.length_append, count, hcount], hresolved, ?_⟩
    have hfirst := hrebuilt.mono fun position hold => hold.of_left (ownOffered schema) others count
    have hsecond := hevolves.mono fun position hold => hold.of_right _ calls count
    exact hfirst.trans hsecond

/-- The calls of the hook in one pass, in their order. -/
def passCalls (mapper : Mapper σ) (container : String) (node : Node) (state : σ) : Transcript :=
  (outcome (applyMapper mapper.recorded container node) (state, [])).value.2.2

/-- A pass ends in the same way whether its calls are written down or not. -/
theorem fst_value_recorded (mapper : Mapper σ) (container : String) (node : Node) (state : σ) :
    (outcome (applyMapper mapper.recorded container node) (state, [])).value.1
      = (outcome (applyMapper mapper container node) state).value.1 := by
  have hmirrors : mapper.recorded.Mirrors Prod.fst mapper := fun _ _ _ => rfl
  rw [← Mirrors.applyMapper hmirrors container node (state, [])]
  rfl

/-- A pass over a tree, the positions where it puts something else, and the tree that it leaves. A
pass with a hook counts if the hook does not fail. -/
inductive Pass : Node → (Position → Prop) → Node → Prop
  | references (container : String) (node : Node) :
    Pass node (fun _ => False) (resolveReferences container node).value
  | hook {σ : Type} (mapper : Mapper σ) (container : String) (state : σ) {node after : Node}
      (h : (outcome (applyMapper mapper container node) state).value.1 = .ok after) :
    Pass node (Replaced node.offered (passCalls mapper container node state)) after
  | primitives (node : Node) : Pass node (fun _ => False) (resolvePrimitives node)
  | composites (node : Node) : Pass node (fun _ => False) (resolveComposites node).value

/-- Passes one after the other, in any order. -/
inductive Passes : Node → (Position → Prop) → Node → Prop
  | none (node : Node) : Passes node (fun _ => False) node
  | andThen {first middle last : Node} {replaced more : Position → Prop}
      (before : Passes first replaced middle) (pass : Pass middle more last) :
    Passes first (fun position => replaced position ∨ more position) last

variable {replaced : Position → Prop} {before after : Node}

theorem Pass.evolves (h : Pass before replaced after) : Evolves replaced before after := by
  cases h with
  | references container => exact .of_resolveReferences container before
  | primitives => exact .of_resolvePrimitives before
  | composites => exact .of_resolveComposites before
  | hook mapper container state h =>
    have hplain := (fst_value_recorded mapper container before state).trans h
    have hrun : (outcome (applyMapper mapper.recorded container before) (state, [])).value
        = (.ok after, (outcome (applyMapper mapper.recorded container before) (state, [])).value.2.1,
          passCalls mapper container before state) := Prod.ext hplain rfl
    obtain ⟨calls, hcalls, -, -, hevolves⟩ := records_applyMapper mapper container before hrun
    rw [List.nil_append] at hcalls
    rw [hcalls]
    exact hevolves

/-- What holds of every single pass holds of passes one after the other. -/
theorem Passes.evolves (h : Passes before replaced after) : Evolves replaced before after := by
  induction h with
  | none => exact .refl _ _
  | andThen _ pass ih =>
    exact (ih.mono fun position hold => .inl hold).trans
      (pass.evolves.mono fun position hold => .inr hold)

/-- The tree with finished types at some of its positions. -/
def withTypes (node : Node) : (Position → Option TypeExpr) → Node :=
  node.fold (fun schema below types => match types [] with
      | some type => .resolved type
      | none => .pending (schema.withChildren (below.edges.map fun child =>
        child.2 fun position => types (child.1 :: position))))
    fun type _ => .resolved type

theorem withTypes_resolved (type : TypeExpr) (types : Position → Option TypeExpr) :
    (resolved type).withTypes types = .resolved type := by
  rw [withTypes, fold]

theorem withTypes_pending (schema : SchemaNode) (types : Position → Option TypeExpr) :
    (pending schema).withTypes types = match types [] with
      | some type => .resolved type
      | none => .pending (schema.withChildren (schema.edges.map fun child =>
        child.2.withTypes fun position => types (child.1 :: position))) := by
  rw [withTypes, fold_pending, Keywords.edges_map, List.map_map]
  rfl

theorem evolves_withTypes (node : Node) (types : Position → Option TypeExpr) :
    Evolves replaced node (node.withTypes types) := by
  induction node using Node.induction generalizing replaced types with
  | resolved type =>
    rw [withTypes_resolved]
    exact .refl _ _
  | pending schema ih =>
    rw [withTypes_pending]
    split
    next type _ => exact .settled schema type
    next =>
      have hlength : (schema.edges.map fun child =>
          child.2.withTypes fun position => types (child.1 :: position)).length
            = schema.children.length := by simp
      apply Evolves.of_edges
      · exact Keywords.keeps_withChildren hlength
      · intro hdescribes
        unfold Keywords.DescribesOwn
        rw [Keywords.keys_properties_withChildren hlength]
        exact hdescribes
      · rw [Keywords.edges_withChildren hlength]
        apply forall₂_zip_edges
        rw [List.forall₂_map_right_iff, List.forall₂_same]
        exact fun child hc => ih child.2 (Keywords.mem_children_of_mem_edges hc) _

/-- Passes in any order leave resolved positions alone. Let some passes lead from a schema, with
types at any of its positions, to an earlier tree, and others from there to a later one. A position
that is resolved in the earlier tree has the same type in the later one, as long as all positions
above it are still schemas and no answer was put in the place of one. A schema in the later tree
which no answer was put in the place of, nor of one above it, was a schema in the earlier tree with
the same structure. Every schema in the later tree requires no name twice, and describes only
properties that it has. -/
theorem resolved_positions_are_inert (schema : Schema) (types : Position → Option TypeExpr)
    {earlier later : Node} {replacedBefore : Position → Prop}
    (start : Passes ((ofSchema schema).withTypes types) replacedBefore earlier)
    (run : Passes earlier replaced later) (position : Position) :
    (∀ type, earlier.at? position = some (.resolved type) →
      (∀ above, above <+: position → above ≠ position →
        ¬replaced above ∧ ∃ schema, later.at? above = some (.pending schema)) →
      later.at? position = some (.resolved type))
    ∧ (∀ last : SchemaNode, later.at? position = some (.pending last) →
      (∀ above, above <+: position → ¬replaced above) →
      ∃ old : SchemaNode, earlier.at? position = some (.pending old) ∧ old.Keeps last)
    ∧ ∀ last : SchemaNode, later.at? position = some (.pending last) →
      last.required.names.Nodup
      ∧ ∀ name ∈ Assoc.keys last.docs, name ∈ Assoc.keys (last.properties.getD []) := by
  have hstart : Evolves replacedBefore (ofSchema schema) earlier :=
    (evolves_withTypes _ types).trans start.evolves
  have hlater := run.evolves.documented (hstart.documented (documented_ofSchema schema))
  refine ⟨?_, ?_, ?_⟩
  · intro type hat hopen
    exact run.evolves.resolved hopen hat
  · intro last hat hnone
    exact run.evolves.pending hnone hat
  · intro last hat
    exact ⟨last.required.nodup, hlater.of_at? hat⟩

/-- A hook that names enumerations in the target language. -/
def namingHook : Mapper Unit := fun property context =>
  pure (if property.enum.isSome then ⟨some "State", context.optional, none⟩ else .ofContext context)

/-- A switch whose size is an object with a width. -/
def switchSchema : Schema where
  type := some "object"
  properties := some [("state", { enum := some [.string "on"] }), ("loud", { type := some "boolean" }),
    ("size", { type := some "object", properties := some [("width", { type := some "number" })] })]

def switchTypes : Position → Option TypeExpr := fun position =>
  if position = [.property "size", .property "width"] then some (.verbatim "Width") else none

/-- The switch after a pass that finishes its size, before its state is asked about. -/
def earlySwitch : Node := (resolveComposites ((ofSchema switchSchema).withTypes switchTypes)).value

/-- The switch after a hook has put text in the place of its state, and composites again. -/
def lateSwitch : Node :=
  match (outcome (applyMapper namingHook "definitions" earlySwitch) ()).value.1 with
  | .ok node => (resolveComposites node).value
  | .error _ => earlySwitch

/-- The size keeps its type while text is put beside it, and the switch its structure. -/
theorem resolved_positions_are_inert_switch :
    ∃ replaced, Passes earlySwitch replaced lateSwitch ∧ ¬replaced []
      ∧ lateSwitch.at? [.property "size"]
        = some (.resolved (.object ⟨[⟨"width", .verbatim "Width", true, none⟩], none⟩))
      ∧ ∃ old last : SchemaNode, earlySwitch.at? [] = some (.pending old)
        ∧ lateSwitch.at? [] = some (.pending last) ∧ old.Keeps last ∧ last.required.names.Nodup := by
  have hsize : earlySwitch.at? [.property "size"]
      = some (.resolved (.object ⟨[⟨"width", .verbatim "Width", true, none⟩], none⟩)) := by
    cbv
  have hoffered : earlySwitch.offered = [[.property "state"], [.property "loud"]] := by
    decide +kernel
  have hopen : lateSwitch.isResolved = false := by decide +kernel
  have hok : (outcome (applyMapper namingHook "definitions" earlySwitch) ()).value.1.isOk := by
    decide +kernel
  rcases hrun : (outcome (applyMapper namingHook "definitions" earlySwitch) ()).value.1 with
    message | middle
  · rw [hrun] at hok
    cases hok
  have hlate : lateSwitch = (resolveComposites middle).value := by rw [lateSwitch, hrun]
  have hpasses := ((Passes.none earlySwitch).andThen
    (.hook namingHook "definitions" () hrun)).andThen (.composites middle)
  rw [← hlate, hoffered] at hpasses
  have hroot : ¬((False ∨ Replaced [[.property "state"], [.property "loud"]]
      (passCalls namingHook "definitions" earlySwitch ()) []) ∨ False) := by
    rintro ((h | ⟨exchange, hmem, -⟩) | h)
    · exact h
    · have hstate : ([] : Position) ∈ [[Edge.property "state"], [Edge.property "loud"]] :=
        (List.of_mem_zip hmem).1
      simp at hstate
    · exact h
  obtain ⟨last, hlast⟩ : ∃ last, lateSwitch.at? [] = some (.pending last) := by
    rw [at?_nil]
    cases h : lateSwitch with
    | pending last => exact ⟨last, rfl⟩
    | resolved type =>
      rw [h] at hopen
      cases hopen
  have hinert := resolved_positions_are_inert switchSchema switchTypes
    ((Passes.none ((ofSchema switchSchema).withTypes switchTypes)).andThen (.composites _)) hpasses
  obtain ⟨old, hold, hkeeps⟩ := (hinert []).2.1 last hlast fun above ha => by
    rw [List.prefix_nil.1 ha]
    exact hroot
  have hnodup := ((hinert []).2.2 last hlast).1
  refine ⟨_, hpasses, hroot, ?_, old, last, hold, hlast, hkeeps, hnodup⟩
  apply (hinert [.property "size"]).1 _ hsize
  intro above ha hne
  rcases List.prefix_cons_iff.1 ha with rfl | ⟨rest, rfl, hrest⟩
  · exact ⟨hroot, last, hlast⟩
  · rw [List.prefix_nil.1 hrest] at hne
    exact absurd rfl hne

end Node
end SchemaTypes
