import Mathlib.Data.List.Forall2
import SchemaTypes.Proofs.Position
import SchemaTypes.Proofs.Stages

/-! Trees that grow more resolved. What is resolved stays as it is, and what is still a schema has
kept its structure, except at positions where something else was put and below them. -/
namespace SchemaTypes

variable {α β : Type}

namespace Keywords

theorem lookup_members (members : List α) (offset index : Nat) :
    (members.mapIdx fun i member => (Edge.member (i + offset), member)).lookup
      (.member (index + offset)) = members[index]? := by
  induction members generalizing offset index with
  | nil => rfl
  | cons member rest ih =>
    rw [List.mapIdx_cons, List.lookup_cons]
    cases index with
    | zero => simp
    | succ index =>
      have hne : (Edge.member (index + 1 + offset) == Edge.member (0 + offset)) = false := by
        simp
      have hrest := ih (offset + 1) index
      rw [hne, List.getElem?_cons_succ, ← hrest]
      simp only [Nat.add_assoc, Nat.add_comm 1 offset]

theorem lookup_properties (entries : List (String × α)) (name : String) :
    (entries.map fun entry => (Edge.property entry.1, entry.2)).lookup (.property name)
      = Assoc.find? name entries := by
  induction entries with
  | nil => rfl
  | cons entry rest ih =>
    obtain ⟨other, child⟩ := entry
    rw [List.map_cons, List.lookup_cons, Assoc.find?_cons, ih]
    by_cases h : name = other
    · simp [h]
    · have hne : (Edge.property name == Edge.property other) = false := by simpa using h
      rw [hne, if_neg h]

/-- Among the edges of a schema the first one of its kind leads to the child. -/
theorem child?_eq_lookup (edge : Edge) (schema : Keywords α) :
    schema.child? edge = schema.edges.lookup edge := by
  have hapart {entries : List (Edge × α)} (h : ∀ entry ∈ entries, edge ≠ entry.1) :
      entries.lookup edge = none :=
    List.lookup_eq_none_iff.2 fun entry he => bne_iff_ne.2 (h entry he)
  have hproperties (h : ∀ name, edge ≠ .property name) :
      ((schema.properties.getD []).map fun entry => (Edge.property entry.1, entry.2)).lookup edge
        = none := by
    refine hapart fun entry he => ?_
    obtain ⟨property, -, rfl⟩ := List.mem_map.1 he
    exact h property.1
  have hmembers (h : ∀ index, edge ≠ .member index) :
      ((schema.allOf.getD []).mapIdx fun index member => (Edge.member index, member)).lookup edge
        = none := by
    refine hapart fun entry he => ?_
    obtain ⟨index, _, rfl⟩ := List.mem_mapIdx.1 he
    exact h index
  have hitems (h : edge ≠ .items) :
      (schema.items.toList.map fun child => (Edge.items, child)).lookup edge = none := by
    refine hapart fun entry he => ?_
    obtain ⟨child, -, rfl⟩ := List.mem_map.1 he
    exact h
  have hvalues (h : edge ≠ .values) : (((schema.additional.map Additional.children).getD []).map
      fun child => (Edge.values, child)).lookup edge = none := by
    refine hapart fun entry he => ?_
    obtain ⟨child, -, rfl⟩ := List.mem_map.1 he
    exact h
  rw [edges, List.lookup_append, List.lookup_append, List.lookup_append]
  cases edge with
  | property name =>
    rw [lookup_properties, hmembers (by simp), hitems (by simp), hvalues (by simp)]
    simp [child?]
  | member index =>
    have hindex := lookup_members (schema.allOf.getD []) 0 index
    simp only [Nat.add_zero] at hindex
    rw [hproperties (by simp), hindex, hitems (by simp), hvalues (by simp)]
    simp [child?]
  | items =>
    rw [hproperties (by simp), hmembers (by simp), hvalues (by simp)]
    cases h : schema.items <;> simp [child?, h]
  | values =>
    rw [hproperties (by simp), hmembers (by simp), hitems (by simp)]
    rcases h : schema.additional with _ | _ | _ <;> simp [child?, h, Additional.children]

theorem mem_edges_of_child? {schema : Keywords α} {edge : Edge} {child : α}
    (h : schema.child? edge = some child) : (edge, child) ∈ schema.edges := by
  rw [child?_eq_lookup, List.lookup_eq_some_iff] at h
  obtain ⟨front, back, hedges, -⟩ := h
  rw [hedges]
  simp

/-- What a schema keeps while its children change. -/
structure Keeps (old : Keywords α) (new : Keywords β) : Prop where
  format : new.format = old.format
  enum : new.enum = old.enum
  properties : new.properties.map Assoc.keys = old.properties.map Assoc.keys
  members : new.allOf.map List.length = old.allOf.map List.length
  items : new.items.isSome = old.items.isSome
  /-- The rule for further properties, up to the schema of their values. -/
  additional : new.additional.map (Additional.map fun _ => ())
    = old.additional.map (Additional.map fun _ => ())

theorem Keeps.refl (schema : Keywords α) : schema.Keeps schema := ⟨rfl, rfl, rfl, rfl, rfl, rfl⟩

theorem Keeps.trans {γ : Type} {old : Keywords α} {middle : Keywords β} {new : Keywords γ}
    (first : old.Keeps middle) (second : middle.Keeps new) : old.Keeps new where
  format := second.format.trans first.format
  enum := second.enum.trans first.enum
  properties := second.properties.trans first.properties
  members := second.members.trans first.members
  items := second.items.trans first.items
  additional := second.additional.trans first.additional

theorem keeps_map (f : α → β) (schema : Keywords α) : schema.Keeps (schema.map f) := by
  rcases schema with ⟨_, _, _, _, _, properties, _, additional, allOf, items, _⟩
  refine ⟨rfl, rfl, ?_, ?_, ?_, ?_⟩
  · cases properties <;> simp [map, Assoc.keys, Function.comp_def]
  · cases allOf <;> simp [map]
  · cases items <;> rfl
  · rcases additional with _ | _ | _ <;> rfl

/-- New children in the old places leave everything else. -/
theorem keeps_withChildren {schema : Keywords α} {children : List β}
    (h : children.length = schema.children.length) :
    schema.Keeps (schema.withChildren children) := by
  have hold := keeps_map (fun _ => ()) schema
  have hnew := keeps_map (fun _ => ()) (schema.withChildren children)
  rw [map_const_withChildren h] at hnew
  exact ⟨rfl, rfl, hnew.properties.symm.trans hold.properties,
    hnew.members.symm.trans hold.members, hnew.items.symm.trans hold.items,
    hnew.additional.symm.trans hold.additional⟩

end Keywords

/-- The descriptions that an object keeps are those of its own properties. -/
def Keywords.DescribesOwn (schema : Keywords α) : Prop :=
  ∀ name ∈ Assoc.keys schema.docs, name ∈ Assoc.keys (schema.properties.getD [])

theorem Keywords.describesOwn_map (f : α → β) (schema : Keywords α) :
    (schema.map f).DescribesOwn ↔ schema.DescribesOwn := by
  rw [DescribesOwn, DescribesOwn, map_docs, keys_properties_map]

namespace Node

/-- No object describes properties that it does not have. -/
def Documented (node : Node) : Prop := node.Everywhere Keywords.DescribesOwn

theorem describesOwn_keywords (schema : Schema) :
    schema.keywords.DescribesOwn := by
  intro name hname
  have hdescribed : name ∈ Assoc.keys ((schema.properties.getD []).filterMap fun entry =>
      entry.2.description.map (entry.1, ·)) := (Assoc.mem_keys_ofList _ name).1 hname
  obtain ⟨described, hmem, rfl⟩ := List.mem_map.1 hdescribed
  obtain ⟨property, hproperty, hdescription⟩ := List.mem_filterMap.1 hmem
  obtain ⟨doc, -, rfl⟩ := Option.map_eq_some_iff.1 hdescription
  exact List.mem_map_of_mem hproperty

/-- A schema that is read describes the properties that it has. -/
theorem documented_ofSchema (schema : Schema) : (ofSchema schema).Documented := by
  induction schema using Schema.induction with
  | step schema ih =>
    rw [ofSchema_eq]
    apply everywhere_map
    · exact (Keywords.describesOwn_map _ _).2 (describesOwn_keywords schema)
    · exact ih

/-- The node at a position. There is none below a finished type. -/
def at? : Node → Position → Option Node
  | node, [] => some node
  | .pending schema, edge :: position =>
    (schema.child? edge).bind fun child => child.at? position
  | .resolved _, _ :: _ => none

@[simp] theorem at?_nil (node : Node) : node.at? [] = some node := by
  cases node <;> rfl

@[simp] theorem at?_pending_cons (schema : SchemaNode) (edge : Edge) (position : Position) :
    (pending schema).at? (edge :: position)
      = (schema.child? edge).bind fun child => child.at? position := rfl

@[simp] theorem at?_resolved_cons (type : TypeExpr) (edge : Edge) (position : Position) :
    (resolved type).at? (edge :: position) = none := rfl

theorem Everywhere.of_at? {p : SchemaNode → Prop} {node : Node} (h : node.Everywhere p)
    {position : Position} {schema : SchemaNode} (hat : node.at? position = some (.pending schema)) :
    p schema := by
  induction position generalizing node with
  | nil =>
    cases (at?_nil node).symm.trans hat
    exact (everywhere_pending_iff.1 h).1
  | cons edge position ih =>
    cases h with
    | resolved type => cases hat
    | pending here below =>
      obtain ⟨child, hchild, hbelow⟩ := Option.bind_eq_some_iff.1 hat
      have hmem := Keywords.mem_children_of_mem_edges (Keywords.mem_edges_of_child? hchild)
      exact ih (below child hmem) hbelow

/-- The schemas above a position are still there, and nothing else was put in their places. -/
def OpenAbove (node : Node) (replaced : Position → Prop) (position : Position) : Prop :=
  ∀ above, above <+: position → above ≠ position →
    ¬replaced above ∧ ∃ schema, node.at? above = some (.pending schema)

/-- The later tree is the earlier one with some schemas finished. Nothing is said of the positions
where something else was put, nor of those below them. -/
structure Evolves (replaced : Position → Prop) (before after : Node) : Prop where
  pending : ∀ {position : Position} {schema : SchemaNode},
    (∀ above, above <+: position → ¬replaced above) →
    after.at? position = some (.pending schema) →
    ∃ old : SchemaNode, before.at? position = some (.pending old) ∧ old.Keeps schema
  resolved : ∀ {position : Position} {type : TypeExpr}, after.OpenAbove replaced position →
    before.at? position = some (.resolved type) → after.at? position = some (.resolved type)
  documented : before.Documented → after.Documented

namespace Evolves

variable {replaced others : Position → Prop} {before middle after : Node}

theorem refl (replaced : Position → Prop) (node : Node) : Evolves replaced node node :=
  ⟨fun _ hat => ⟨_, hat, .refl _⟩, fun _ hat => hat, id⟩

theorem mono (h : Evolves replaced before after) (hr : ∀ position, replaced position →
    others position) : Evolves others before after where
  pending hnone hat := h.pending (fun above ha hold => hnone above ha (hr above hold)) hat
  resolved hopen hat := by
    refine h.resolved (fun above ha hne => ?_) hat
    obtain ⟨hnone, hpending⟩ := hopen above ha hne
    exact ⟨fun hold => hnone (hr above hold), hpending⟩
  documented := h.documented

theorem trans (first : Evolves replaced before middle) (second : Evolves replaced middle after) :
    Evolves replaced before after where
  pending hnone hat := by
    obtain ⟨schema, hmiddle, hlast⟩ := second.pending hnone hat
    obtain ⟨old, hbefore, hfirst⟩ := first.pending hnone hmiddle
    exact ⟨old, hbefore, hfirst.trans hlast⟩
  resolved {position _} hopen hat := by
    have hmiddle : middle.OpenAbove replaced position := by
      intro above ha hne
      obtain ⟨hnone, schema, hafter⟩ := hopen above ha hne
      have hclear : ∀ higher, higher <+: above → ¬replaced higher := fun higher hh =>
        (hopen higher (hh.trans ha) (fun heq => hne (ha.eq_of_length_le
          (by rw [← heq]; exact hh.length_le)))).1
      obtain ⟨old, hold, -⟩ := second.pending hclear hafter
      exact ⟨hnone, old, hold⟩
    exact second.resolved hopen (first.resolved hmiddle hat)
  documented := second.documented ∘ first.documented

/-- A schema may be finished. -/
theorem settled (schema : SchemaNode) (type : TypeExpr) :
    Evolves replaced (.pending schema) (.resolved type) where
  pending {position _} _ hat := by
    cases position <;> cases hat
  resolved {position _} hopen hat := by
    cases position with
    | nil => cases hat
    | cons edge position =>
      obtain ⟨-, other, hother⟩ := hopen [] List.nil_prefix (List.cons_ne_nil _ _).symm
      cases hother
  documented _ := .resolved type

/-- Anything may be put in the place of a schema. -/
theorem of_replaced (h : replaced []) (schema : SchemaNode) {node : Node}
    (hd : node.Documented) : Evolves replaced (.pending schema) node where
  pending hnone _ := absurd h (hnone [] List.nil_prefix)
  resolved {position _} hopen hat := by
    cases position with
    | nil => cases hat
    | cons edge position =>
      exact absurd h (hopen [] List.nil_prefix (List.cons_ne_nil _ _).symm).1
  documented _ := hd

theorem lookup_rel {R : Edge → α → β → Prop} {as : List (Edge × α)} {bs : List (Edge × β)}
    (h : List.Forall₂ (fun a b => a.1 = b.1 ∧ R a.1 a.2 b.2) as bs) (edge : Edge) :
    Option.Rel (R edge) (as.lookup edge) (bs.lookup edge) := by
  induction h with
  | nil => exact .none
  | @cons a b as bs head tail ih =>
    obtain ⟨kind, child⟩ := a
    obtain ⟨_, next⟩ := b
    obtain ⟨rfl, hhead⟩ := head
    rw [List.lookup_cons, List.lookup_cons]
    by_cases heq : edge = kind
    · subst heq
      rw [beq_self_eq_true]
      exact .some hhead
    · rw [beq_eq_false_iff_ne.2 heq]
      exact ih

/-- A schema evolves with its children, edge by edge. -/
theorem of_edges {old new : SchemaNode} (keeps : old.Keeps new)
    (docs : old.DescribesOwn → new.DescribesOwn)
    (h : List.Forall₂ (fun child next => child.1 = next.1
      ∧ Evolves (fun position => replaced (child.1 :: position)) child.2 next.2)
      old.edges new.edges) : Evolves replaced (.pending old) (.pending new) := by
  have hchild (edge : Edge) : Option.Rel (Evolves fun position => replaced (edge :: position))
      (old.child? edge) (new.child? edge) := by
    rw [Keywords.child?_eq_lookup, Keywords.child?_eq_lookup]
    exact lookup_rel (R := fun edge => Evolves fun position => replaced (edge :: position)) h edge
  have habove {edge : Edge} {above position : Position} (ha : above <+: position) :
      edge :: above <+: edge :: position := (List.prefix_cons_inj edge).2 ha
  refine ⟨?_, ?_, ?_⟩
  · intro position schema hnone hat
    cases position with
    | nil =>
      cases hat
      exact ⟨old, rfl, keeps⟩
    | cons edge position =>
      obtain ⟨next, hnext, hbelow⟩ := Option.bind_eq_some_iff.1 hat
      have hrel := hchild edge
      rw [hnext] at hrel
      rcases hold : old.child? edge with _ | child <;> rw [hold] at hrel <;> cases hrel
      next hevolves =>
      rw [at?_pending_cons, hold]
      exact hevolves.pending (fun above ha => hnone (edge :: above) (habove ha)) hbelow
  · intro position type hopen hat
    cases position with
    | nil => cases hat
    | cons edge position =>
      obtain ⟨child, hold, hbelow⟩ := Option.bind_eq_some_iff.1 hat
      have hrel := hchild edge
      rw [hold] at hrel
      rcases hnext : new.child? edge with _ | next <;> rw [hnext] at hrel <;> cases hrel
      next hevolves =>
      rw [at?_pending_cons, hnext]
      refine hevolves.resolved (fun above ha hne => ?_) hbelow
      obtain ⟨hnone, schema, hschema⟩ := hopen (edge :: above) (habove ha) (by simpa using hne)
      rw [at?_pending_cons, hnext] at hschema
      exact ⟨hnone, schema, hschema⟩
  · intro hdocumented
    obtain ⟨here, below⟩ := everywhere_pending_iff.1 hdocumented
    refine .pending (docs here) ?_
    rw [← Keywords.map_snd_edges] at below ⊢
    rw [List.forall_mem_map] at below ⊢
    clear hchild
    generalize old.edges = children at h below
    generalize new.edges = nexts at h
    induction h with
    | nil => simp
    | cons head _ ih =>
      rw [List.forall_mem_cons] at below ⊢
      exact ⟨head.2.documented below.1, ih below.2⟩

/-- A walk that leaves resolved nodes alone, and finishes a schema or gives it what became of its
children. -/
theorem of_levels {f : Node → Node} (hresolved : ∀ type, f (.resolved type) = .resolved type)
    (hpending : ∀ schema : SchemaNode, (∃ type, f (.pending schema) = .resolved type)
      ∨ f (.pending schema) = .pending (schema.map f)) (node : Node) :
    Evolves replaced node (f node) := by
  induction node using Node.induction generalizing replaced with
  | resolved type =>
    rw [hresolved]
    exact .refl _ _
  | pending schema ih =>
    rcases hpending schema with ⟨type, htype⟩ | hmap
    · rw [htype]
      exact .settled schema type
    · rw [hmap]
      refine .of_edges (Keywords.keeps_map f schema) (Keywords.describesOwn_map f schema).2 ?_
      rw [Keywords.edges_map, List.forall₂_map_right_iff, List.forall₂_same]
      exact fun child hc => ⟨rfl, ih child.2 (Keywords.mem_children_of_mem_edges hc)⟩

theorem of_resolveReferences (container : String) (node : Node) :
    Evolves replaced node (resolveReferences container node).value := by
  apply of_levels (f := fun node => (resolveReferences container node).value)
  · simp
  · intro schema
    rw [resolveReferences_pending]
    cases schema.ref with
    | some pointer => exact .inl ⟨_, rfl⟩
    | none => exact .inr rfl

theorem documented_resolveReferences (container : String) {node : Node} (h : node.Documented) :
    (resolveReferences container node).value.Documented := by
  have hevolves : Evolves (fun _ => False) node _ := of_resolveReferences container node
  exact hevolves.documented h

theorem of_resolvePrimitives (node : Node) : Evolves replaced node (resolvePrimitives node) := by
  apply of_levels
  · simp
  · intro schema
    rw [resolvePrimitives_pending, resolvePrimitive]
    split
    · exact .inl ⟨_, rfl⟩
    · exact .inr rfl

theorem of_resolveComposites (node : Node) :
    Evolves replaced node (resolveComposites node).value := by
  apply of_levels (f := fun node => (resolveComposites node).value)
  · simp
  · intro schema
    rw [resolveComposites_pending]
    exact (resolveComposite_cases _).imp_right (congrArg Noted.value)

end Evolves
end Node
end SchemaTypes
