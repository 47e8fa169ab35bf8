import SchemaTypes.Node

/-! Trees one level at a time: the children of a schema, replacing them without effects, and
induction over whole trees. -/
namespace SchemaTypes

variable {α β γ : Type}

namespace Additional

def map (f : α → β) : Additional α → Additional β
  | .allowed any => .allowed any
  | .values child => .values (f child)

def children : Additional α → List α
  | .allowed _ => []
  | .values child => [child]

/-- The rule with the child in place of the schema of its values, if it has one. -/
def withChild? (child : Option β) : Additional α → Option (Additional β)
  | .allowed any => some (.allowed any)
  | .values _ => child.map .values

end Additional

namespace Keywords

/-- The children in the order in which they are visited. -/
def children (schema : Keywords α) : List α :=
  (schema.properties.getD []).map Prod.snd ++ schema.allOf.getD [] ++ schema.items.toList
    ++ (schema.additional.map Additional.children).getD []

theorem mem_children_of_mem_properties {schema : Keywords α} {entry : String × α}
    (h : entry ∈ schema.properties.getD []) : entry.2 ∈ schema.children := by
  simp only [children, List.mem_append, List.mem_map]
  exact Or.inl (Or.inl (Or.inl ⟨entry, h, rfl⟩))

theorem mem_children_of_mem_allOf {schema : Keywords α} {member : α}
    (h : member ∈ schema.allOf.getD []) : member ∈ schema.children := by
  simp only [children, List.mem_append]
  exact Or.inl (Or.inl (Or.inr h))

theorem mem_children_of_items {schema : Keywords α} {child : α} (h : schema.items = some child) :
    child ∈ schema.children := by
  simp only [children, List.mem_append]
  exact Or.inl (Or.inr (by simp [h]))

/-- The children of an object with other properties: those, and the children beside the old ones. -/
theorem mem_children_of_properties {schema : Keywords α} {entries : List (String × α)}
    {required : RequiredSet} {docs : List (String × String)} {child : α}
    (h : child ∈ children { schema with properties := some entries, required, docs }) :
    (∃ entry ∈ entries, entry.2 = child) ∨ child ∈ schema.children := by
  simp only [children, List.mem_append, List.mem_map, Option.getD_some] at h ⊢
  rcases h with ((hp | hm) | hi) | ha
  · exact Or.inl hp
  · exact Or.inr (Or.inl (Or.inl (Or.inr hm)))
  · exact Or.inr (Or.inl (Or.inr hi))
  · exact Or.inr (Or.inr ha)

/-- Replaces every child, without effects. -/
def map (f : α → β) (schema : Keywords α) : Keywords β :=
  { schema with
    properties := schema.properties.map (List.map fun entry => (entry.1, f entry.2))
    allOf := schema.allOf.map (List.map f)
    items := schema.items.map f
    additional := schema.additional.map (Additional.map f) }

@[simp] theorem map_ref (f : α → β) (schema : Keywords α) : (schema.map f).ref = schema.ref := rfl

@[simp] theorem map_type (f : α → β) (schema : Keywords α) : (schema.map f).type = schema.type :=
  rfl

@[simp] theorem map_enum (f : α → β) (schema : Keywords α) : (schema.map f).enum = schema.enum :=
  rfl

@[simp] theorem map_required (f : α → β) (schema : Keywords α) :
    (schema.map f).required = schema.required := rfl

@[simp] theorem map_docs (f : α → β) (schema : Keywords α) : (schema.map f).docs = schema.docs :=
  rfl

@[simp] theorem map_properties (f : α → β) (schema : Keywords α) :
    (schema.map f).properties
      = schema.properties.map (List.map fun entry => (entry.1, f entry.2)) := rfl

@[simp] theorem map_allOf (f : α → β) (schema : Keywords α) :
    (schema.map f).allOf = schema.allOf.map (List.map f) := rfl

@[simp] theorem map_items (f : α → β) (schema : Keywords α) :
    (schema.map f).items = schema.items.map f := rfl

@[simp] theorem map_additional (f : α → β) (schema : Keywords α) :
    (schema.map f).additional = schema.additional.map (Additional.map f) := rfl

theorem getD_properties_map (f : α → β) (schema : Keywords α) :
    (schema.map f).properties.getD []
      = (schema.properties.getD []).map fun entry => (entry.1, f entry.2) := by
  cases h : schema.properties <;> simp [h]

theorem getD_allOf_map (f : α → β) (schema : Keywords α) :
    (schema.map f).allOf.getD [] = (schema.allOf.getD []).map f := by
  cases h : schema.allOf <;> simp [h]

@[simp] theorem keys_properties_map (f : α → β) (schema : Keywords α) :
    Assoc.keys ((schema.map f).properties.getD []) = Assoc.keys (schema.properties.getD []) := by
  cases h : schema.properties <;> simp [Assoc.keys, h]

theorem map_map (g : β → γ) (f : α → β) (schema : Keywords α) :
    (schema.map f).map g = schema.map (g ∘ f) := by
  have h : ∀ rule : Additional α, (rule.map f).map g = rule.map (g ∘ f) := by
    intro rule
    cases rule <;> rfl
  simp [map, Function.comp_def, h]

@[simp] theorem map_id (schema : Keywords α) : (schema.map fun child => child) = schema := by
  rcases schema with ⟨_, _, _, _, _, properties, _, additional, allOf, items, _⟩
  rcases additional with _ | _ | _ <;> simp [map, Additional.map]

theorem children_map (f : α → β) (schema : Keywords α) :
    (schema.map f).children = schema.children.map f := by
  have h : ∀ rule : Additional α, (rule.map f).children = rule.children.map f := by
    intro rule
    cases rule <;> rfl
  rcases schema with ⟨_, _, _, _, _, properties, _, additional, allOf, items, _⟩
  cases properties <;> cases additional <;> cases allOf <;> cases items <;> simp [children, map, h]

/-- Only the values at the children decide the rebuilt schema. -/
theorem map_congr {f g : α → β} {schema : Keywords α}
    (h : ∀ child ∈ schema.children, f child = g child) :
    schema.map f = schema.map g := by
  rcases schema with ⟨_, _, _, _, _, properties, _, additional, allOf, items, _⟩
  simp only [children, List.mem_append, List.mem_map] at h
  have hp : properties.map (List.map fun entry => (entry.1, f entry.2))
      = properties.map (List.map fun entry => (entry.1, g entry.2)) := by
    cases properties with
    | none => rfl
    | some entries =>
      refine congrArg some (List.map_congr_left fun entry he => ?_)
      rw [h _ (Or.inl (Or.inl (Or.inl ⟨entry, he, rfl⟩)))]
  have hm : allOf.map (List.map f) = allOf.map (List.map g) := by
    cases allOf with
    | none => rfl
    | some members =>
      exact congrArg some (List.map_congr_left fun member hc => h _ (Or.inl (Or.inl (Or.inr hc))))
  have hi : items.map f = items.map g := by
    cases items with
    | none => rfl
    | some child => exact congrArg some (h _ (Or.inl (Or.inr (by simp))))
  have ha : additional.map (Additional.map f) = additional.map (Additional.map g) := by
    rcases additional with _ | _ | child
    · rfl
    · rfl
    · exact congrArg (some ∘ Additional.values) (h _ (Or.inr (by simp [Additional.children])))
  simp only [map, hp, hm, hi, ha]

@[simp] theorem shape_map (f : α → β) (schema : Keywords α) : (schema.map f).shape = schema.shape := by
  simp [shape]

@[simp] theorem isEmptyShape_map (f : α → β) (schema : Keywords α) :
    (schema.map f).isEmptyShape = schema.isEmptyShape := by
  rcases schema with ⟨_, _, _, _, _, properties, _, additional, allOf, _, _⟩
  rcases additional with _ | (_ | _) | _ <;> cases properties <;> cases allOf <;>
    simp [isEmptyShape, map, Additional.map]

/-- New children in the places of the old ones, in the order in which those are visited. -/
def withChildren (schema : Keywords α) (children : List β) : Keywords β :=
  let names := Assoc.keys (schema.properties.getD [])
  let members := children.drop names.length
  let further := members.drop (schema.allOf.getD []).length
  { schema with
    properties := schema.properties.map fun _ => names.zip children
    allOf := schema.allOf.map fun old => members.take old.length
    items := schema.items.bind fun _ => further.head?
    additional := schema.additional.bind
      (Additional.withChild? (further.drop schema.items.toList.length).head?) }

theorem zip_keys_append (entries : List (String × α)) (f : α → β) (rest : List β) :
    (Assoc.keys entries).zip ((entries.map Prod.snd).map f ++ rest)
      = entries.map fun entry => (entry.1, f entry.2) := by
  induction entries with
  | nil => simp [Assoc.keys]
  | cons entry more ih =>
    simp only [Assoc.keys] at ih
    simp [Assoc.keys, ← ih]

theorem map_eq_withChildren (f : α → β) (schema : Keywords α) :
    schema.map f = schema.withChildren (schema.children.map f) := by
  rcases schema with ⟨_, _, _, _, _, properties, _, additional, allOf, items, _⟩
  have hp := fun entries : List (String × α) => zip_keys_append entries f []
  have hr := fun entries : List (String × α) => zip_keys_append entries f
  have ht (members : List α) : (members.map f).take members.length = members.map f :=
    List.take_of_length_le (by simp)
  simp only [Assoc.keys, List.append_nil, List.map_map] at hp hr
  rcases additional with _ | _ | _ <;> cases properties <;> cases allOf <;> cases items <;>
    simp [children, map, withChildren, Additional.map, Additional.children, Additional.withChild?,
      Assoc.keys, hp, hr, ht]

theorem map_withChildren (f : β → γ) (schema : Keywords α) (children : List β) :
    (schema.withChildren children).map f = schema.withChildren (children.map f) := by
  have hz (names : List String) (bs : List β) :
      (names.zip bs).map (fun entry => (entry.1, f entry.2)) = names.zip (bs.map f) := by
    rw [List.zip_map_right]
    rfl
  rcases schema with ⟨_, _, _, _, _, properties, _, additional, allOf, items, _⟩
  rcases additional with _ | _ | _ <;> cases properties <;> cases allOf <;> cases items <;>
    simp [map, withChildren, Additional.map, Additional.withChild?, Assoc.keys, hz,
      Function.comp_def]

/-- Only the places of the children count, not the children that are replaced. -/
theorem withChildren_map (f : α → β) (schema : Keywords α) (children : List γ) :
    (schema.map f).withChildren children = schema.withChildren children := by
  rcases schema with ⟨_, _, _, _, _, properties, _, additional, allOf, items, _⟩
  rcases additional with _ | _ | _ <;> cases properties <;> cases allOf <;> cases items <;>
    simp [map, withChildren, Additional.map, Additional.withChild?, Assoc.keys, Function.comp_def]

theorem children_withChildren {schema : Keywords α} {children : List β}
    (h : children.length = schema.children.length) :
    (schema.withChildren children).children = children := by
  have hsplit (n : Nat) (bs : List β) (hn : n ≤ bs.length) :
      ∃ front back, bs = front ++ back ∧ front.length = n :=
    ⟨bs.take n, bs.drop n, by simp, List.length_take_of_le hn⟩
  rcases schema with ⟨_, _, _, _, _, properties, _, additional, allOf, items, _⟩
  simp only [Keywords.children, List.length_append, List.length_map] at h
  obtain ⟨ps, rest, rfl, hps⟩ := hsplit (properties.getD []).length children (by omega)
  simp only [List.length_append] at h
  obtain ⟨ms, rest, rfl, hms⟩ := hsplit (allOf.getD []).length rest (by omega)
  simp only [List.length_append] at h
  obtain ⟨is, as, rfl, his⟩ := hsplit items.toList.length rest (by omega)
  have hzip (names : List String) (front back : List β) (hn : names.length = front.length) :
      (names.zip (front ++ back)).map Prod.snd = front := by
    rw [← List.append_nil names, List.zip_append hn]
    simp [List.map_snd_zip (Nat.le_of_eq hn.symm)]
  have hp : (((properties.map fun _ => ((properties.getD []).map Prod.fst).zip
      (ps ++ (ms ++ (is ++ as)))).getD []).map Prod.snd) = ps := by
    cases properties with
    | none => exact (List.length_eq_zero_iff.1 hps).symm
    | some entries => exact hzip _ _ _ (by simpa using hps.symm)
  have hm : ((allOf.map fun old => (ms ++ (is ++ as)).take old.length).getD []) = ms := by
    cases allOf with
    | none => exact (List.length_eq_zero_iff.1 hms).symm
    | some members => exact List.take_left' hms
  have hi : ((items.bind fun _ => (is ++ as).head?).toList) = is := by
    cases items with
    | none => exact (List.length_eq_zero_iff.1 his).symm
    | some item =>
      obtain ⟨new, rfl⟩ := List.length_eq_one_iff.1 his
      rfl
  have ha : ((additional.bind (Additional.withChild? as.head?)).map Additional.children).getD []
      = as := by
    have hl : as.length = ((additional.map Additional.children).getD []).length := by
      simp only [List.length_append] at h
      omega
    rcases additional with _ | _ | value
    · exact (List.length_eq_zero_iff.1 hl).symm
    · exact (List.length_eq_zero_iff.1 hl).symm
    · obtain ⟨new, rfl⟩ := List.length_eq_one_iff.1 hl
      rfl
  simp only [withChildren, Keywords.children, Assoc.keys, List.length_map, hp,
    List.drop_left' hps, List.drop_left' hms, List.drop_left' his, hm, hi, ha, List.append_assoc]

theorem map_const_withChildren {schema : Keywords α} {children : List β}
    (h : children.length = schema.children.length) (c : γ) :
    (schema.withChildren children).map (fun _ => c) = schema.map fun _ => c := by
  rw [map_withChildren, map_eq_withChildren (fun _ => c) schema]
  simp [List.map_const', h]

theorem shape_withChildren {schema : Keywords α} {children : List β}
    (h : children.length = schema.children.length) :
    (schema.withChildren children).shape = schema.shape := by
  rw [← shape_map fun _ => (), map_const_withChildren h, shape_map]

theorem keys_properties_withChildren {schema : Keywords α} {children : List β}
    (h : children.length = schema.children.length) :
    Assoc.keys ((schema.withChildren children).properties.getD [])
      = Assoc.keys (schema.properties.getD []) := by
  rw [← keys_properties_map fun _ => (), map_const_withChildren h, keys_properties_map]

theorem sizeOf_lt_of_mem_children [SizeOf α] {schema : Keywords α} {child : α}
    (h : child ∈ schema.children) : sizeOf child < sizeOf schema.properties
      + sizeOf schema.allOf + sizeOf schema.items + sizeOf schema.additional := by
  rcases schema with ⟨_, _, _, _, _, properties, _, additional, allOf, items, _⟩
  simp only [children, List.mem_append, List.mem_map, Option.mem_toList] at h
  rcases h with ((⟨entry, he, rfl⟩ | hm) | hi) | ha
  · cases properties with
    | none => simp at he
    | some entries =>
      rcases entry with ⟨name, child⟩
      have hs := List.sizeOf_lt_of_mem he
      simp only [Option.getD_some, Prod.mk.sizeOf_spec] at hs
      simp
      omega
  · cases allOf with
    | none => simp at hm
    | some members =>
      have hs := List.sizeOf_lt_of_mem hm
      simp only [Option.getD_some] at hs
      simp
      omega
  · subst hi
    simp
    omega
  · rcases additional with _ | _ | value <;> simp [Additional.children] at ha
    subst ha
    simp
    omega

end Keywords

namespace Node

/-- Induction over trees: a property of all children passes to the schema above them. -/
@[elab_as_elim]
theorem induction {motive : Node → Prop} (resolved : ∀ type, motive (.resolved type))
    (pending : ∀ schema : SchemaNode, (∀ child ∈ schema.children, motive child) →
      motive (.pending schema)) : ∀ node, motive node
  | .resolved type => resolved type
  | .pending schema => pending schema fun child _ => induction resolved pending child
termination_by node => sizeOf node
decreasing_by
  have h := Keywords.sizeOf_lt_of_mem_children ‹child ∈ schema.children›
  cases schema
  simp at h ⊢
  omega

end Node

namespace Schema

/-- A schema as a node has its keywords: required names once each, descriptions by name. -/
def keywords (schema : Schema) : Keywords Schema :=
  { schema with
    required := RequiredSet.ofList (schema.required.getD [])
    docs := Node.describedIn schema.properties }

/-- Induction over schemas, children first. -/
@[elab_as_elim]
theorem induction {motive : Schema → Prop}
    (step : ∀ schema : Schema, (∀ child ∈ schema.keywords.children, motive child) →
      motive schema) (schema : Schema) : motive schema :=
  step schema fun child _ => induction step child
termination_by sizeOf schema
decreasing_by
  have h := Keywords.sizeOf_lt_of_mem_children ‹child ∈ schema.keywords.children›
  cases schema
  simp [keywords] at h ⊢
  omega

end Schema

namespace Node

theorem ofProperties_eq (entries : List (String × Schema)) :
    ofProperties entries = entries.map fun entry => (entry.1, ofSchema entry.2) := by
  induction entries with
  | nil => rfl
  | cons entry rest ih => simp [ofProperties, ih]

theorem ofSchemas_eq (schemas : List Schema) : ofSchemas schemas = schemas.map ofSchema := by
  induction schemas with
  | nil => rfl
  | cons schema rest ih => simp [ofSchemas, ih]

theorem ofSchema_eq (schema : Schema) :
    ofSchema schema = .pending (schema.keywords.map ofSchema) := by
  rcases schema with ⟨_, _, _, _, _, properties, _, additional, allOf, items⟩
  rcases additional with _ | _ | _ <;> cases properties <;> cases allOf <;> cases items <;>
    simp [ofSchema, ofProperties_eq, ofSchemas_eq, Schema.keywords, Keywords.map, Additional.map]

end Node
end SchemaTypes
