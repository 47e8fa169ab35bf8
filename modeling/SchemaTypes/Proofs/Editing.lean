import SchemaTypes.Proofs.Completeness
import SchemaTypes.Proofs.Draft

/-! A hook as an editor of the document, and the pass over trees as that edit with references looked
up. -/
namespace SchemaTypes

open Steps

variable {σ : Type}

namespace Draft

/-- The property that an answer leaves in the document: the same schema with another description,
without a type or with a known one, a schema of its own, or text. -/
def answered (property : Keywords Draft) (mapping : PropertyMapping) : Draft :=
  if mapping.type = property.type then
    .edited { property with description := mapping.description }
  else
    match mapping.type.map Fragment.ofText with
    | none => .edited { property with type := none, description := mapping.description }
    | some (.declared type) =>
      .edited { property with type := some type, description := mapping.description }
    | some (.schema fragment) => .written { fragment with description := mapping.description }
    | some (.verbatim text) => .verbatim text mapping.description

/-- The descriptions by name, with another one or none for a property. -/
def describe (docs : List (String × String)) (name : String) :
    Option String → List (String × String)
  | some doc => Assoc.put name doc docs
  | none => Assoc.erase name docs

theorem find?_describe (docs : List (String × String)) (name : String) (description : Option String)
    (k : String) : Assoc.find? k (describe docs name description)
      = if k = name then description else Assoc.find? k docs := by
  cases description with
  | none => exact Assoc.find?_erase name docs k
  | some doc => exact Assoc.find?_put name doc docs k

/-- Shows the hook the properties without a reference, in order, and applies its answers: a name is
put into the required names or taken out of them. -/
def offerProperties (mapper : Mapper σ) (container : String) (owner : Node.Owner) :
    List (String × Draft) → Asking σ (Node.Owner × List (String × Draft))
  | [] => pure (owner, [])
  | (name, .edited property) :: rest => do
    let mapping ← mapper.ask (property.map (shown container))
      ⟨property.type, !owner.required.contains name, property.description⟩
    let required := if mapping.optional then (owner.required.remove name).1
      else (owner.required.insert name).1
    let docs := describe owner.docs name mapping.description
    let (owner, rest) ← offerProperties mapper container ⟨required, docs⟩ rest
    return (owner, (name, answered property mapping) :: rest)
  | (name, draft) :: rest => do
    let (owner, rest) ← offerProperties mapper container owner rest
    return (owner, (name, draft) :: rest)

/-- Offers the own properties of an object. -/
def offer (mapper : Mapper σ) (container : String) (keywords : Keywords Draft) :
    Asking σ Draft :=
  match keywords.shape, keywords.properties with
  | .object, some entries => do
    let (owner, entries) ← offerProperties mapper container ⟨keywords.required, keywords.docs⟩
      entries
    return .edited
      { keywords with required := owner.required, docs := owner.docs, properties := some entries }
  | _, _ => pure (.edited keywords)

end Draft

namespace Schema

section Visit

variable {m : Type → Type} [Monad m] {β : Type} (keep : Schema → Option β) (leave : Keywords β → m β)

mutual
/-- Visits a schema after its children, which come in the order properties, members, items, values of
further properties. Nothing below a schema that is kept is visited. -/
def visitM : Schema → m β
  | ⟨ref, type, format, enum, description, properties, required, additional, allOf, items⟩ => do
    match keep ⟨ref, type, format, enum, description, properties, required, additional, allOf,
        items⟩ with
    | some kept => return kept
    | none =>
      let docs := Node.describedIn properties
      let properties ← match properties with
        | none => pure none
        | some entries => some <$> visitPropertiesM entries
      let allOf ← match allOf with
        | none => pure none
        | some members => some <$> visitAllM members
      let items ← match items with
        | none => pure none
        | some child => some <$> visitM child
      let additional ← match additional with
        | none => pure none
        | some (.allowed any) => pure (some (.allowed any))
        | some (.values child) => (some ∘ Additional.values) <$> visitM child
      leave ⟨ref, type, format, enum, description, properties,
        RequiredSet.ofList (required.getD []), additional, allOf, items, docs⟩

def visitPropertiesM : List (String × Schema) → m (List (String × β))
  | [] => pure []
  | (name, child) :: rest => do
    let child ← visitM child
    let rest ← visitPropertiesM rest
    return (name, child) :: rest

def visitAllM : List Schema → m (List β)
  | [] => pure []
  | child :: rest => do
    let child ← visitM child
    let rest ← visitAllM rest
    return child :: rest
end

variable {keep leave} in
theorem visitM_of_some {schema : Schema} {kept : β} (h : keep schema = some kept) :
    visitM keep leave schema = pure kept := by
  cases schema
  simp only [visitM, h]

variable [LawfulMonad m]

theorem visitPropertiesM_eq (entries : List (String × Schema)) :
    visitPropertiesM keep leave entries
      = entries.mapM fun entry => (entry.1, ·) <$> visitM keep leave entry.2 := by
  induction entries with
  | nil => simp [visitPropertiesM]
  | cons entry rest ih => simp [visitPropertiesM, ih]

theorem visitAllM_eq (schemas : List Schema) :
    visitAllM keep leave schemas = schemas.mapM (visitM keep leave) := by
  induction schemas with
  | nil => simp [visitAllM]
  | cons schema rest ih => simp [visitAllM, ih]

variable {keep leave}

theorem visitM_of_none {schema : Schema} (h : keep schema = none) :
    visitM keep leave schema = schema.keywords.mapChildrenM (visitM keep leave) >>= leave := by
  rcases schema with ⟨_, _, _, _, _, properties, _, additional, allOf, items⟩
  simp only [visitM, h, Keywords.mapChildrenM, keywords, visitAllM_eq, visitPropertiesM_eq]
  cases properties <;> cases allOf <;> cases items <;> rcases additional with _ | _ | _ <;>
    simp only [bind_assoc, pure_bind]

end Visit

/-- Edits a document: a schema with a reference stays as it is written, every other one has its
children edited and then its own properties offered. -/
def edit (mapper : Mapper σ) (container : String) : Schema → Asking σ Draft :=
  visitM (fun schema => if schema.ref.isSome then some (.written schema) else none)
    (Draft.offer mapper container)

theorem edit_of_ref (mapper : Mapper σ) (container : String) {schema : Schema} {pointer : String}
    (h : schema.ref = some pointer) : edit mapper container schema = pure (.written schema) :=
  visitM_of_some (by simp [h])

theorem edit_of_ref_eq_none (mapper : Mapper σ) (container : String) {schema : Schema}
    (h : schema.ref = none) : edit mapper container schema
      = schema.keywords.mapChildrenM (edit mapper container) >>= Draft.offer mapper container :=
  visitM_of_none (by simp [h])

end Schema

namespace Draft

/-- What an edit leaves of a schema: its keywords, or all of it if it has a reference. -/
def IsVisited : Draft → Prop
  | .edited _ => True
  | .written schema => schema.ref.isSome
  | .verbatim _ _ => False

theorem answered_shown (container : String) (property : Keywords Draft) (mapping : PropertyMapping) :
    (Node.answered container (property.map (shown container)) mapping).value
      = shown container (answered property mapping) := by
  unfold Node.answered answered
  rw [Keywords.map_type]
  split
  · rw [shown_edited]
    rfl
  · rcases mapping.type.map Fragment.ofText with _ | (type | fragment | text)
    · exact (shown_edited container { property with
        type := none, description := mapping.description }).symm
    · exact (shown_edited container { property with
        type := some type, description := mapping.description }).symm
    · rfl
    · rfl

theorem shown_eq_resolved_of_ref {schema : Schema} (h : schema.ref.isSome) (container : String) :
    ∃ type, shown container (.written schema) = .resolved type := by
  obtain ⟨pointer, hp⟩ := Option.isSome_iff_exists.1 h
  exact ⟨.reference container (Pointer.name pointer).value, Node.loaded_of_ref container hp⟩

/-- The pass over the properties of an object is the edit of its properties. -/
theorem mapProperties_shown (mapper : Mapper σ) (container : String) (owner : Node.Owner)
    {entries : List (String × Draft)} (h : ∀ entry ∈ entries, entry.2.IsVisited) :
    quiet (Node.mapProperties mapper container owner
        (entries.map fun entry => (entry.1, shown container entry.2)))
      = (fun result => (result.1, result.2.map fun entry => (entry.1, shown container entry.2)))
        <$> quiet (offerProperties mapper container owner entries) := by
  induction entries generalizing owner with
  | nil => rfl
  | cons entry rest ih =>
    have hrest : ∀ entry ∈ rest, entry.2.IsVisited := fun entry he => h entry (by simp [he])
    have hentry := h entry (by simp)
    obtain ⟨name, property | schema | _⟩ := entry
    · simp only [List.map_cons, shown_edited, Node.mapProperties, offerProperties, quiet_bind,
        quiet_lift, quiet_pure, map_bind, map_pure, pure_bind, answered_shown]
      refine bind_congr fun mapping => ?_
      have howner : owner.record name mapping = ⟨if mapping.optional then
          (owner.required.remove name).1 else (owner.required.insert name).1,
          describe owner.docs name mapping.description⟩ := by
        cases hd : mapping.description <;> simp only [Node.Owner.record, describe, hd]
      rw [howner, ih _ hrest, bind_map_left]
    · obtain ⟨type, ht⟩ := shown_eq_resolved_of_ref hentry container
      simp only [List.map_cons, ht, Node.mapProperties, offerProperties, quiet_bind, quiet_pure,
        ih owner hrest, bind_map_left, map_bind, map_pure]
    · cases hentry

theorem mapObject_shown (mapper : Mapper σ) (container : String) {keywords : Keywords Draft}
    (h : ∀ child ∈ keywords.children, child.IsVisited) :
    quiet (Node.mapObject mapper container (keywords.map (shown container)))
      = shown container <$> quiet (offer mapper container keywords) := by
  have hkeep : (pure (.pending (keywords.map (shown container))) : ExceptT String (StateM σ) Node)
      = shown container <$> quiet (pure (.edited keywords) : Asking σ Draft) := by
    rw [quiet_pure, map_pure, shown_edited]
  unfold Node.mapObject offer
  rw [Keywords.shape_map, Keywords.map_properties]
  rcases keywords.shape with _ | _ | _ | _ | _
  case object =>
    rcases hp : keywords.properties with _ | entries
    · exact hkeep
    · have hentries : ∀ entry ∈ entries, entry.2.IsVisited := fun entry he =>
        h entry.2 (Keywords.mem_children_of_mem_properties (by simpa [hp] using he))
      simp only [Option.map_some, quiet_bind, quiet_pure, map_bind, map_pure, Keywords.map_required,
        Keywords.map_docs, mapProperties_shown mapper container _ hentries, bind_map_left,
        shown_edited]
      rfl
  all_goals exact hkeep

/-- However an object is edited, its keywords are left. -/
theorem ensures_offer (mapper : Mapper σ) (container : String) (keywords : Keywords Draft) :
    Ensures (offer mapper container keywords) IsVisited (fun _ => True) (fun _ => True) := by
  unfold offer
  split
  · exact (Ensures.trivial _).bind fun _ _ => .pure trivial
  · exact .pure trivial

theorem ensures_edit (mapper : Mapper σ) (container : String) (schema : Schema) :
    Ensures (schema.edit mapper container) IsVisited (fun _ => True) (fun _ => True) := by
  cases h : schema.ref with
  | some pointer =>
    rw [Schema.edit_of_ref mapper container h]
    exact .pure (by simp [IsVisited, h])
  | none =>
    rw [Schema.edit_of_ref_eq_none mapper container h]
    exact (Ensures.trivial _).bind fun keywords _ => ensures_offer mapper container keywords

end Draft

namespace Schema

/-- The pass over the tree of a schema is the edit of the schema: a draft is seen with its references
looked up, and nothing else is between the two. -/
theorem applyMapper_ofSchema (mapper : Mapper σ) (container : String) (schema : Schema) :
    quiet (Node.applyMapper mapper container
        (Node.resolveReferences container (.ofSchema schema)).value)
      = Draft.shown container <$> quiet (schema.edit mapper container) := by
  induction schema using Schema.induction with
  | step schema ih =>
    cases h : schema.ref with
    | some pointer =>
      have hsome : schema.ref.isSome := by rw [h]; rfl
      obtain ⟨type, ht⟩ := Draft.shown_eq_resolved_of_ref hsome container
      rw [edit_of_ref mapper container h, quiet_pure, map_pure, ht]
      change quiet (Node.applyMapper mapper container (Draft.shown container (.written schema))) = _
      rw [ht]
      rfl
    | none =>
      have hrefs : (Node.resolveReferences container (.ofSchema schema)).value
          = .pending (schema.keywords.map fun child =>
            (Node.resolveReferences container (.ofSchema child)).value) :=
        Node.loaded_of_ref_eq_none container h
      have hchildren : quiet (schema.keywords.mapChildrenM fun child =>
          Node.applyMapper mapper container
            (Node.resolveReferences container (.ofSchema child)).value)
          = (fun keywords => keywords.map (Draft.shown container))
            <$> quiet (schema.keywords.mapChildrenM (edit mapper container)) := by
        rw [quiet_mapChildrenM, Keywords.mapChildrenM_congr ih, Keywords.mapChildrenM_map_right,
          quiet_mapChildrenM]
      have hvisited := Ensures.forall_mapChildrenM fun child (_ : child ∈ schema.keywords.children) =>
        Draft.ensures_edit mapper container child
      rw [hrefs, edit_of_ref_eq_none mapper container h, Node.applyMapper, Node.rebuildM_pending,
        pure_bind, Keywords.mapChildrenM_map]
      calc quiet (schema.keywords.mapChildrenM (fun child => Node.applyMapper mapper container
              (Node.resolveReferences container (.ofSchema child)).value)
            >>= Node.mapObject mapper container)
          = quiet (schema.keywords.mapChildrenM (edit mapper container) >>= fun keywords =>
              Node.mapObject mapper container (keywords.map (Draft.shown container))) := by
            rw [quiet_bind, hchildren, bind_map_left, quiet_bind]
        _ = quiet (schema.keywords.mapChildrenM (edit mapper container) >>= fun keywords =>
              Draft.shown container <$> Draft.offer mapper container keywords) :=
            hvisited.quiet_bind_congr fun keywords hk => by
              rw [quiet_map, Draft.mapObject_shown mapper container hk.2]
        _ = Draft.shown container <$> quiet (schema.keywords.mapChildrenM (edit mapper container)
              >>= Draft.offer mapper container) := by
            rw [← quiet_map, map_bind]

end Schema
end SchemaTypes
