import SchemaTypes.Proofs.AskedPositions
import SchemaTypes.Proofs.Draft
import SchemaTypes.Proofs.ObjectSites

/-! Where the objects of a tree are written, and what decides about their properties: the answer
about each property, otherwise what is written beside it. -/
namespace SchemaTypes

variable {σ : Type}

namespace Schema

def at? (schema : Schema) : Position → Option Schema
  | [] => some schema
  | edge :: position => (schema.keywords.child? edge).bind fun child => child.at? position

/-- The schema that an answer puts in the place of a property. -/
def replacement? (property : Schema) (mapping : PropertyMapping) : Option Schema :=
  if mapping.type = property.type then none
  else
    match mapping.type.map Fragment.ofText with
    | some (.schema fragment) => some { fragment with description := mapping.description }
    | _ => none

/-- The schema as it is written at a position, and whether it is written in a fragment. A fragment
replaces the schema that was there with everything below, and nothing in it is replaced. -/
def writtenAt (answers : Answers) (schema : Schema) : Position → Option (Schema × Bool)
  | [] => some (schema, false)
  | edge :: position => (schema.keywords.child? edge).bind fun child =>
    match (answers [edge]).bind child.replacement? with
    | some fragment => (fragment.at? position).map (·, true)
    | none => child.writtenAt (answers.below edge) position

theorem writtenAt_of_unanswered {answers : Answers} (h : ∀ position, answers position = none)
    (schema : Schema) (position : Position) :
    schema.writtenAt answers position = (schema.at? position).map (·, false) := by
  induction position generalizing schema answers with
  | nil => rfl
  | cons edge position ih =>
    rw [writtenAt, at?, h, Option.map_bind]
    exact congrArg _ (funext fun child => ih (fun position => h (edge :: position)) child)

/-- Only the answers about what stands above a position decide what is written there. -/
theorem writtenAt_congr {answers other : Answers} (schema : Schema) {position : Position}
    (h : ∀ above ≠ [], above <+: position → other above = answers above) :
    schema.writtenAt other position = schema.writtenAt answers position := by
  induction position generalizing schema answers other with
  | nil => rfl
  | cons edge position ih =>
    have hbelow : ∀ above ≠ [], above <+: position →
        other.below edge above = answers.below edge above := fun above _ habove =>
      h (edge :: above) (List.cons_ne_nil _ _) ((List.prefix_cons_inj edge).2 habove)
    have hedge : other [edge] = answers [edge] :=
      h [edge] (List.cons_ne_nil _ _) ((List.prefix_cons_inj edge).2 List.nil_prefix)
    rw [writtenAt, writtenAt, hedge]
    refine congrArg _ (funext fun child => ?_)
    rw [ih child hbelow]

end Schema

/-- The properties of an object are as their own answers say, and as they are written where none was
given. -/
structure Explains (hooked : Bool) (written : Schema) (given : String → Option PropertyMapping)
    (schema : SchemaNode) : Prop where
  asked : ∀ name, (given name).isSome ↔ hooked ∧ written.keywords.shape = .object
    ∧ ∃ property, (name, property) ∈ written.properties.getD [] ∧ property.ref = none
  faces : schema.ownFaces = (written.properties.getD []).map fun entry =>
    ⟨entry.1,
      ((given entry.1).map fun answer => answer.optional).getD
        (!(written.required.getD []).contains entry.1),
      ((given entry.1).map fun answer => answer.description).getD entry.2.description⟩
  required : ∀ name, schema.required.contains name
    = ((given name).map fun answer => !answer.optional).getD
      ((written.required.getD []).contains name)

namespace Node

/-- Each answer is recorded under the name of its property, for every view of what is recorded. -/
theorem view_settledOwner {β : Type} (view : Owner → String → β) (value : PropertyMapping → β)
    (hrecord : ∀ owner name mapping k, view (owner.record name mapping) k
      = if k = name then value mapping else view owner k)
    {answers : Answers} {entries : List (String × Node)} (names : (Assoc.keys entries).Nodup)
    (h : ∀ entry ∈ entries, (answers [.property entry.1]).isSome → ¬entry.2.isResolved)
    (owner : Owner) (k : String) :
    view (settledOwner answers owner entries) k
      = ((if k ∈ Assoc.keys entries then answers [.property k] else none).map value).getD
        (view owner k) := by
  induction entries generalizing owner with
  | nil => simp [settledOwner, Assoc.keys]
  | cons entry rest ih =>
    obtain ⟨name, node⟩ := entry
    obtain ⟨hnew, hnames⟩ := List.nodup_cons.1 names
    have hname : name ∉ Assoc.keys rest := hnew
    have hrest := ih hnames fun entry he => h entry (List.mem_cons_of_mem _ he)
    have hkeys : k ∈ Assoc.keys ((name, node) :: rest) ↔ k = name ∨ k ∈ Assoc.keys rest :=
      List.mem_cons
    cases ha : answers [.property name] with
    | none =>
      have howner : settledOwner answers owner ((name, node) :: rest)
          = settledOwner answers owner rest := by
        simp only [settledOwner, List.foldl_cons, ha]
      rw [howner, hrest]
      by_cases hk : k = name
      · simp [hk, ha]
      · simp [hkeys, hk]
    | some mapping =>
      have howner : settledOwner answers owner ((name, node) :: rest)
          = settledOwner answers (owner.record name mapping) rest := by
        cases node with
        | pending property => simp only [settledOwner, List.foldl_cons, ha]
        | resolved type => exact absurd rfl (h _ List.mem_cons_self (by rw [ha]; rfl))
      rw [howner, hrest, hrecord]
      by_cases hk : k = name
      · subst hk
        simp [hname, ha, hkeys]
      · simp [hkeys, hk]

theorem name_settledEntry (container : String) (answers : Answers) (entry : String × Node) :
    (settledEntry container answers entry).1 = entry.1 := by
  unfold settledEntry
  split <;> rfl

theorem settledEntry_of_eq_none (container : String) {answers : Answers} {name : String}
    (h : answers [.property name] = none) (node : Node) :
    settledEntry container answers (name, node) = (name, node) := by
  simp only [settledEntry, h]

theorem exists_of_mem_map_settledEntry {container : String} {answers : Answers}
    {entries : List (String × Node)} {name : String} {node : Node}
    (h : (name, node) ∈ entries.map (settledEntry container answers)) :
    ∃ old, (name, old) ∈ entries ∧ settledEntry container answers (name, old) = (name, node) := by
  obtain ⟨⟨other, old⟩, hold, heq⟩ := List.mem_map.1 h
  have hname : name = other := by
    simpa [heq] using name_settledEntry container answers (other, old)
  subst hname
  exact ⟨old, hold, heq⟩

theorem keys_map_settledEntry (container : String) (answers : Answers)
    (entries : List (String × Node)) :
    Assoc.keys (entries.map (settledEntry container answers)) = Assoc.keys entries := by
  simp [Assoc.keys, name_settledEntry]

/-- What an object keeps about its properties once its answers are recorded. -/
theorem view_settledObject {β : Type} (view : Owner → String → β) (value : PropertyMapping → β)
    (hrecord : ∀ owner name mapping k, view (owner.record name mapping) k
      = if k = name then value mapping else view owner k)
    (container : String) {answers : Answers} {schema : SchemaNode}
    (names : (Assoc.keys (schema.properties.getD [])).Nodup)
    (h : ∀ entry ∈ schema.properties.getD [], (answers [.property entry.1]).isSome →
      ¬entry.2.isResolved)
    (asked : ∀ name, (answers [.property name]).isSome → schema.shape = .object
      ∧ name ∈ Assoc.keys (schema.properties.getD [])) (k : String) :
    view ⟨(settledObject container answers schema).required,
        (settledObject container answers schema).docs⟩ k
      = ((answers [.property k]).map value).getD (view ⟨schema.required, schema.docs⟩ k) := by
  unfold settledObject
  split
  next entries hs hp =>
    simp only [hp, Option.getD_some] at names h asked
    have hview := view_settledOwner view value hrecord names h ⟨schema.required, schema.docs⟩ k
    refine hview.trans ?_
    by_cases hk : k ∈ Assoc.keys entries
    · rw [if_pos hk]
    · have hnone : answers [.property k] = none := by
        by_contra hne
        exact hk (asked k (Option.isSome_iff_ne_none.2 hne)).2
      rw [if_neg hk, hnone]
  next hother =>
    have hnone : answers [.property k] = none := by
      by_contra hne
      obtain ⟨hs, hk⟩ := asked k (Option.isSome_iff_ne_none.2 hne)
      cases hp : schema.properties with
      | none => simp [hp, Assoc.keys] at hk
      | some entries => exact hother entries hs hp
    rw [hnone]
    rfl

/-- What is left of the children hangs on the edges of the schema. -/
theorem edges_settledChildren (container : String) (schema : Schema) (answers : Answers) :
    (settledChildren container schema answers).edges = schema.keywords.edges.map fun child =>
      (child.1, settled container child.2 (answers.below child.1)) := by
  rw [settledChildren, Keywords.edges_withChildren (by simp)]
  exact List.zip_map'

theorem shape_settledChildren (container : String) (schema : Schema) (answers : Answers) :
    (settledChildren container schema answers).shape = schema.keywords.shape :=
  Keywords.shape_withChildren (by simp)

theorem keys_settledChildren (container : String) (schema : Schema) (answers : Answers) :
    Assoc.keys ((settledChildren container schema answers).properties.getD [])
      = Assoc.keys (schema.properties.getD []) :=
  Keywords.keys_properties_withChildren (by simp)

theorem exists_of_mem_edges_settledChildren {container : String} {schema : Schema}
    {answers : Answers} {edge : Edge} {node : Node}
    (h : (edge, node) ∈ (settledChildren container schema answers).edges) :
    ∃ child, (edge, child) ∈ schema.keywords.edges
      ∧ node = settled container child (answers.below edge) := by
  rw [edges_settledChildren] at h
  obtain ⟨⟨_, child⟩, hchild, heq⟩ := List.mem_map.1 h
  cases heq
  exact ⟨child, hchild, rfl⟩

theorem keys_settledObject (container : String) (answers : Answers) (schema : SchemaNode) :
    Assoc.keys ((settledObject container answers schema).properties.getD [])
      = Assoc.keys (schema.properties.getD []) := by
  unfold settledObject
  split
  next entries _ hp => rw [Option.getD_some, hp, Option.getD_some, keys_map_settledEntry]
  next => rfl

/-- Answers about own properties are recorded: these are the properties of an object. -/
theorem recorded_of_cover (container : String) {hooked : Bool} {schema : Schema}
    (hr : schema.ref = none) {answers : Answers} (hc : answers.Cover hooked schema) {edge : Edge}
    (h : (answers [edge]).isSome) : (settledChildren container schema answers).shape = .object
      ∧ ∃ name ∈ Assoc.keys ((settledChildren container schema answers).properties.getD []),
        edge = .property name := by
  obtain ⟨-, hasked⟩ := (hc [edge] (List.cons_ne_nil _ _)).1 h
  obtain ⟨hs, entry, he, rfl, -⟩ := (Schema.mem_positions_own hr).1 hasked
  rw [shape_settledChildren, keys_settledChildren]
  exact ⟨hs, entry.1, List.mem_map_of_mem he, rfl⟩

/-- The object at the root is as its own answers say. -/
theorem explains_settledObject (container : String) {hooked : Bool} {schema : Schema}
    (hr : schema.ref = none) (names : (Assoc.keys (schema.properties.getD [])).Nodup)
    {answers : Answers} (hc : answers.Cover hooked schema) :
    Explains hooked schema (fun name => answers [.property name])
      (settledObject container answers (settledChildren container schema answers)) := by
  have hkeys := keys_settledChildren container schema answers
  have hasked (name : String) : (answers [.property name]).isSome ↔ hooked
      ∧ schema.keywords.shape = .object
      ∧ ∃ property, (name, property) ∈ schema.properties.getD [] ∧ property.ref = none := by
    rw [hc _ (List.cons_ne_nil _ _), Schema.mem_positions_own hr]
    constructor
    · rintro ⟨hh, hs, ⟨other, property⟩, hp, heq, href⟩
      cases heq
      exact ⟨hh, hs, property, hp, href⟩
    · rintro ⟨hh, hs, property, hp, href⟩
      exact ⟨hh, hs, (name, property), hp, rfl, href⟩
  have hpending : ∀ entry ∈ (settledChildren container schema answers).properties.getD [],
      (answers [.property entry.1]).isSome → ¬entry.2.isResolved := by
    rintro ⟨name, node⟩ he ha
    obtain ⟨-, -, property, hp, href⟩ := (hasked name).1 ha
    have hedge : (.property name, node) ∈ (settledChildren container schema answers).edges :=
      Keywords.mem_edges.2 he
    obtain ⟨child, hchild, rfl⟩ := exists_of_mem_edges_settledChildren hedge
    have hsame : child = property := by
      have hfound := Assoc.find?_eq_some_of_mem names hp
      rw [Assoc.find?_eq_some_of_mem names (Keywords.mem_edges.1 hchild)] at hfound
      exact Option.some.inj hfound
    rw [hsame, settled_of_ref_eq_none container href]
    exact Bool.false_ne_true
  have hrecorded : ∀ name, (answers [.property name]).isSome →
      (settledChildren container schema answers).shape = .object
        ∧ name ∈ Assoc.keys ((settledChildren container schema answers).properties.getD []) := by
    intro name ha
    obtain ⟨hs, _, hname, heq⟩ := recorded_of_cover container hr hc ha
    cases heq
    exact ⟨hs, hname⟩
  have hnames :
      (Assoc.keys ((settledChildren container schema answers).properties.getD [])).Nodup := by
    rw [hkeys]
    exact names
  have hrequired := view_settledObject (fun owner k => owner.required.contains k)
    (fun answer => !answer.optional) contains_record container hnames hpending hrecorded
  have hdocs := view_settledObject (fun owner k => Assoc.find? k owner.docs)
    PropertyMapping.description find?_record container hnames hpending hrecorded
  refine ⟨hasked, ?_, fun name => ?_⟩
  · rw [Keywords.ownFaces_eq, keys_settledObject, hkeys, Assoc.keys, List.map_map]
    refine List.map_congr_left fun entry he => ?_
    have hwritten : Assoc.find? entry.1 schema.keywords.docs = entry.2.description :=
      find?_describedBy Schema.description names he
    have hcontains := (hrequired entry.1).trans (congrArg _ (RequiredSet.contains_ofList _ _))
    have hfind := (hdocs entry.1).trans (congrArg _ hwritten)
    simp only [Function.comp_apply, hcontains, hfind]
    cases answers [.property entry.1] with
    | none => rfl
    | some answer => simp
  · exact (hrequired name).trans (congrArg _ (RequiredSet.contains_ofList _ _))

/-- A child is as before, or it is a property that its answer leaves. -/
theorem mem_edges_settledObject {container : String} {answers : Answers} {schema : SchemaNode}
    (asked : ∀ edge, (answers [edge]).isSome → schema.shape = .object
      ∧ ∃ name ∈ Assoc.keys (schema.properties.getD []), edge = .property name)
    {edge : Edge} {node : Node}
    (h : (edge, node) ∈ (settledObject container answers schema).edges) :
    (edge, node) ∈ schema.edges ∧ (answers [edge] = none ∨ node.isResolved)
      ∨ ∃ property mapping, (edge, .pending property) ∈ schema.edges
        ∧ answers [edge] = some mapping ∧ node = (answered container property mapping).value := by
  by_cases ha : answers [edge] = none
  · refine .inl ⟨?_, .inl ha⟩
    unfold settledObject at h
    split at h
    next entries _ hp =>
      rw [Keywords.mem_edges] at h ⊢
      cases edge with
      | property name =>
        obtain ⟨old, hold, heq⟩ := exists_of_mem_map_settledEntry h
        rw [settledEntry_of_eq_none container ha] at heq
        cases heq
        rw [hp]
        exact hold
      | member | items | values => exact h
    next => exact h
  · obtain ⟨hs, name, hname, rfl⟩ := asked edge (Option.isSome_iff_ne_none.2 ha)
    obtain ⟨mapping, hmapping⟩ := Option.ne_none_iff_exists'.1 ha
    cases hp : schema.properties with
    | none => simp [hp, Assoc.keys] at hname
    | some entries =>
      rw [Keywords.mem_edges] at h
      simp only [settledObject, hs, hp, Option.getD_some] at h
      obtain ⟨old, hold, heq⟩ := exists_of_mem_map_settledEntry h
      have hedge : (.property name, old) ∈ schema.edges := by
        rw [Keywords.mem_edges, hp]
        exact hold
      cases old with
      | resolved type =>
        cases heq
        exact .inl ⟨hedge, .inr rfl⟩
      | pending property =>
        simp only [settledEntry, hmapping, Prod.mk.injEq, true_and] at heq
        exact .inr ⟨property, mapping, hedge, hmapping, heq.symm⟩

theorem settledObject_of_unanswered (container : String) {answers : Answers}
    (h : ∀ position, answers position = none) (schema : SchemaNode) :
    settledObject container answers schema = schema := by
  have hentries (entries : List (String × Node)) :
      entries.map (settledEntry container answers) = entries := by
    refine (List.map_congr_left fun entry _ => ?_).trans (List.map_id entries)
    exact settledEntry_of_eq_none container (h _) entry.2
  have howner (owner : Owner) (entries : List (String × Node)) :
      settledOwner answers owner entries = owner := by
    induction entries with
    | nil => rfl
    | cons entry rest ih =>
      refine Eq.trans ?_ ih
      obtain ⟨name, _ | _⟩ := entry <;> simp only [settledOwner, List.foldl_cons, h]
  unfold settledObject
  split
  next entries _ hp =>
    simp only [hentries, howner, ← hp]
  next => rfl

/-- Without answers the references of a schema are looked up, and nothing else happens. -/
theorem settled_of_unanswered (container : String) (schema : Schema) {answers : Answers}
    (h : ∀ position, answers position = none) :
    settled container schema answers = loaded container schema := by
  induction schema using Schema.induction generalizing answers with
  | step schema ih =>
    cases hr : schema.ref with
    | some pointer => exact settled_of_ref container hr answers
    | none =>
      have hchildren : settledChildren container schema answers
          = schema.keywords.map (loaded container) := by
        rw [settledChildren, Keywords.map_eq_withChildren, ← Keywords.map_snd_edges, List.map_map]
        refine congrArg _ ?_
        refine List.map_congr_left fun child hc => ?_
        have hchild := Keywords.mem_children_of_mem_edges hc
        exact ih child.2 hchild fun position => h (child.1 :: position)
      rw [settled_of_ref_eq_none container hr, settledObject_of_unanswered container h, hchildren,
        loaded_of_ref_eq_none container hr]

theorem distinct_of_ofText {text : String} {fragment : Schema}
    (h : Fragment.ofText text = .schema fragment) : fragment.Distinct := by
  dsimp only [Fragment.ofText] at h
  split at h
  · cases h
  · split at h
    · split at h
      next parsed hparsed =>
        cases h
        exact Schema.distinct_of_ofJson? hparsed
      next => cases h
    · cases h

/-- What an answer leaves of a property: the property with another type and description, a fragment
in its place, or a type. -/
theorem answered_cases (container : String) {property : SchemaNode} {schema : Schema}
    (h : property.type = schema.type) (mapping : PropertyMapping) :
    (∃ type description, schema.replacement? mapping = none
      ∧ (answered container property mapping).value = .pending { property with type, description })
    ∨ (∃ fragment, schema.replacement? mapping = some fragment ∧ fragment.Distinct
      ∧ (answered container property mapping).value = loaded container fragment)
    ∨ ∃ type, schema.replacement? mapping = none
      ∧ (answered container property mapping).value = .resolved type := by
  unfold Schema.replacement?
  rw [← h]
  have hanswered := answerLeaves_answered container property mapping
  generalize (answered container property mapping).value = node at hanswered ⊢
  cases hanswered with
  | same hsame =>
    rw [if_pos hsame]
    exact .inl ⟨property.type, mapping.description, rfl, rfl⟩
  | untyped hne hnone =>
    rw [if_neg hne, hnone]
    exact .inl ⟨none, mapping.description, rfl, rfl⟩
  | known hne hsome hknown =>
    rw [if_neg hne, hsome, Option.map_some, Fragment.ofText_of_isKnownType hknown]
    exact .inl ⟨some _, mapping.description, rfl, rfl⟩
  | fragment hne hsome hread =>
    rw [if_neg hne, hsome, Option.map_some, hread]
    have hdistinct := Schema.distinct_iff.1 (distinct_of_ofText hread)
    exact .inr (.inl ⟨_, rfl, Schema.distinct_iff.2 hdistinct, rfl⟩)
  | verbatim hne hsome hread =>
    rw [if_neg hne, hsome, Option.map_some, hread]
    exact .inr (.inr ⟨_, rfl, rfl⟩)

theorem type_of_settled {container : String} {schema : Schema} {answers : Answers}
    {property : SchemaNode} (h : settled container schema answers = .pending property) :
    property.type = schema.type := by
  cases hr : schema.ref with
  | some pointer =>
    rw [settled_of_ref container hr, loaded_of_ref container hr] at h
    cases h
  | none =>
    rw [settled_of_ref_eq_none container hr] at h
    cases h
    unfold settledObject
    split <;> rfl

/-- The objects of the first tree stand in the second one, with the same properties. -/
def KeepsObjects (node other : Node) : Prop :=
  ∀ position target, At node position target → ∃ old, At other position old
    ∧ target.properties = old.properties ∧ target.required = old.required ∧ target.docs = old.docs

theorem KeepsObjects.refl (node : Node) : KeepsObjects node node :=
  fun _ target h => ⟨target, h, rfl, rfl, rfl⟩

/-- Another type and description do not change what stands below a schema, nor its properties. -/
theorem keepsObjects_edited (schema : SchemaNode) (type description : Option String) :
    KeepsObjects (.pending { schema with type, description }) (.pending schema) := by
  intro position target h
  cases h with
  | here => exact ⟨schema, .here schema, rfl, rfl, rfl⟩
  | inside hedge below => exact ⟨target, .inside hedge below, rfl, rfl, rfl⟩

/-- A child of an object comes from the child of the schema, or from a fragment in its place. -/
theorem child_cases {container : String} {hooked : Bool} {schema : Schema} (hr : schema.ref = none)
    {answers : Answers} (hc : answers.Cover hooked schema) {edge : Edge} {node : Node}
    (h : (edge, node) ∈ (settledObject container answers
      (settledChildren container schema answers)).edges) :
    ∃ child, (edge, child) ∈ schema.keywords.edges
      ∧ ((∃ type, node = .resolved type)
        ∨ (answers [edge]).bind child.replacement? = none
          ∧ KeepsObjects node (settled container child (answers.below edge))
        ∨ ∃ fragment, (answers [edge]).bind child.replacement? = some fragment
          ∧ fragment.Distinct ∧ node = loaded container fragment) := by
  rcases mem_edges_settledObject (fun edge => recorded_of_cover container hr hc) h with
    ⟨hnode, hanswer⟩ | ⟨property, mapping, hnode, hmapping, rfl⟩
  · obtain ⟨child, hchild, rfl⟩ := exists_of_mem_edges_settledChildren hnode
    refine ⟨child, hchild, ?_⟩
    rcases hanswer with hanswer | hresolved
    · rw [hanswer]
      exact .inr (.inl ⟨rfl, .refl _⟩)
    · cases hsettled : settled container child (answers.below edge) with
      | resolved type => exact .inl ⟨type, rfl⟩
      | pending property =>
        rw [hsettled] at hresolved
        cases hresolved
  · obtain ⟨child, hchild, hproperty⟩ := exists_of_mem_edges_settledChildren hnode
    refine ⟨child, hchild, ?_⟩
    rw [hmapping, Option.bind_some, ← hproperty]
    rcases answered_cases container (type_of_settled hproperty.symm) mapping with
      ⟨type, description, hreplacement, hvalue⟩ | ⟨fragment, hreplacement, hfragment, hvalue⟩
      | ⟨type, -, hvalue⟩
    · rw [hvalue]
      exact .inr (.inl ⟨hreplacement, keepsObjects_edited property type description⟩)
    · exact .inr (.inr ⟨fragment, hreplacement, hfragment, hvalue⟩)
    · exact .inl ⟨type, hvalue⟩

end Node

theorem Explains.congr {hooked : Bool} {written : Schema} {given : String → Option PropertyMapping}
    {old schema : SchemaNode} (h : Explains hooked written given old)
    (hp : schema.properties = old.properties) (hr : schema.required = old.required)
    (hd : schema.docs = old.docs) : Explains hooked written given schema := by
  have hfaces : schema.ownFaces = old.ownFaces := by
    rw [Keywords.ownFaces, Keywords.ownFaces, hp, hr, hd]
  exact ⟨h.asked, hfaces.trans h.faces, fun name => hr ▸ h.required name⟩

theorem Answers.Cover.below {hooked : Bool} {schema : Schema} {answers : Answers}
    (h : answers.Cover hooked schema) (hr : schema.ref = none)
    (names : (Assoc.keys (schema.properties.getD [])).Nodup) {edge : Edge} {child : Schema}
    (hedge : (edge, child) ∈ schema.keywords.edges) :
    (answers.below edge).Cover hooked child := by
  intro position hp
  rw [Answers.below, h _ (List.cons_ne_nil _ _), Schema.mem_positions_below hr names hedge hp]

namespace Node

/-- Every object of the tree is as its own answers say, otherwise as it is written, in the document
or in the fragment that an answer put in the place of a schema above it. -/
theorem explains_settled (container : String) {hooked : Bool} {schema : Schema}
    (h : schema.Distinct) {answers : Answers} (hc : answers.Cover hooked schema)
    {position : Position} {target : SchemaNode}
    (ht : At (settled container schema answers) position target) :
    ∃ written spliced, schema.writtenAt answers position = some (written, spliced)
      ∧ Explains (hooked && !spliced) written
        (fun name => if spliced then none else answers (position ++ [.property name])) target := by
  induction position generalizing hooked schema answers target with
  | nil =>
    obtain ⟨names, -⟩ := h
    cases hr : schema.ref with
    | some pointer =>
      rw [settled_of_ref container hr, loaded_of_ref container hr] at ht
      cases ht
    | none =>
      rw [settled_of_ref_eq_none container hr] at ht
      cases ht
      refine ⟨schema, false, rfl, ?_⟩
      simpa using explains_settledObject container hr names hc
  | cons edge position ih =>
    obtain ⟨names, below⟩ := h
    cases hr : schema.ref with
    | some pointer =>
      rw [settled_of_ref container hr, loaded_of_ref container hr] at ht
      cases ht
    | none =>
      rw [settled_of_ref_eq_none container hr] at ht
      cases ht with
      | inside hedge hbelow =>
        obtain ⟨child, hchild, hnode⟩ := child_cases hr hc hedge
        have hfound : schema.keywords.child? edge = some child :=
          Keywords.child?_of_mem_edges names hchild
        rw [Schema.writtenAt, hfound, Option.bind_some]
        rcases hnode with ⟨type, rfl⟩ | ⟨hkept, hkeeps⟩ | ⟨fragment, hreplaced, hfragment, rfl⟩
        · cases hbelow
        · have hdistinct := below child (Keywords.mem_children_of_mem_edges hchild)
          obtain ⟨old, hold, hp, hrequired, hdocs⟩ := hkeeps position target hbelow
          obtain ⟨written, spliced, hwritten, hexplains⟩ :=
            ih hdistinct (hc.below hr names hchild) hold
          rw [hkept]
          exact ⟨written, spliced, hwritten, hexplains.congr hp hrequired hdocs⟩
        · -- a fragment is a document of its own, in which nothing is asked about
          rw [← settled_of_unanswered container fragment fun _ => rfl] at hbelow
          obtain ⟨written, spliced, hwritten, hexplains⟩ :=
            ih hfragment (Answers.cover_none fragment) hbelow
          rw [Schema.writtenAt_of_unanswered fun _ => rfl] at hwritten
          obtain ⟨_, hat, heq⟩ := Option.map_eq_some_iff.1 hwritten
          cases heq
          rw [hreplaced]
          exact ⟨written, true, by simp [hat], by simpa using hexplains⟩

end Node
end SchemaTypes
