import Mathlib.Data.List.Nodup
import Mathlib.Data.List.Range
import SchemaTypes.Proofs.Distinct

/-! Positions in schemas and trees: the edges from a schema to its children, and one recursion over
each kind of tree. -/
namespace SchemaTypes

/-- The way from a schema to one of its children. -/
inductive Edge where
  | property (name : String)
  | member (index : Nat)
  | items
  | values
deriving DecidableEq, Repr

/-- The edges from the root of a tree to a schema in it. -/
abbrev Position := List Edge

variable {α β : Type}

namespace Keywords

/-- The children with the edges to them, in the order in which they are visited. -/
def edges (schema : Keywords α) : List (Edge × α) :=
  (schema.properties.getD []).map (fun entry => (.property entry.1, entry.2))
    ++ (schema.allOf.getD []).mapIdx (fun index member => (.member index, member))
    ++ schema.items.toList.map (fun child => (.items, child))
    ++ ((schema.additional.map Additional.children).getD []).map fun child => (.values, child)

def child? (edge : Edge) (schema : Keywords α) : Option α :=
  match edge with
  | .property name => Assoc.find? name (schema.properties.getD [])
  | .member index => (schema.allOf.getD [])[index]?
  | .items => schema.items
  | .values => ((schema.additional.map Additional.children).getD []).head?

theorem mem_edges {schema : Keywords α} {edge : Edge} {child : α} :
    (edge, child) ∈ schema.edges ↔ match edge with
      | .property name => (name, child) ∈ schema.properties.getD []
      | .member index => (schema.allOf.getD [])[index]? = some child
      | .items => schema.items = some child
      | .values => schema.additional = some (.values child) := by
  have hvalues : child ∈ (schema.additional.map Additional.children).getD []
      ↔ schema.additional = some (.values child) := by
    rcases schema.additional with _ | _ | _ <;> simp [Additional.children, eq_comm]
  cases edge with
  | property name =>
    simp [edges, List.mem_mapIdx]
  | member index =>
    simp [edges, List.mem_mapIdx, List.getElem?_eq_some_iff]
  | items => simp [edges, List.mem_mapIdx]
  | values => simp [edges, List.mem_mapIdx, hvalues]

@[simp] theorem map_snd_edges (schema : Keywords α) :
    schema.edges.map Prod.snd = schema.children := by
  have hmembers (members : List α) :
      (members.mapIdx fun index member => (Edge.member index, member)).map Prod.snd = members := by
    apply List.ext_getElem <;> simp
  simp only [edges, children, List.map_append, List.map_map, hmembers, Function.comp_def,
    List.map_id']

theorem mem_children_of_mem_edges {schema : Keywords α} {child : Edge × α}
    (h : child ∈ schema.edges) : child.2 ∈ schema.children := by
  rw [← map_snd_edges]
  exact List.mem_map_of_mem h

@[simp] theorem length_edges (schema : Keywords α) :
    schema.edges.length = schema.children.length := by
  rw [← map_snd_edges, List.length_map]

/-- An edge leads to one child where no name stands twice. -/
theorem child?_of_mem_edges {schema : Keywords α}
    (names : (Assoc.keys (schema.properties.getD [])).Nodup) {edge : Edge} {child : α}
    (h : (edge, child) ∈ schema.edges) : schema.child? edge = some child := by
  rw [mem_edges] at h
  cases edge with
  | property name => exact Assoc.find?_eq_some_of_mem names h
  | member index => exact h
  | items => exact h
  | values => simp [child?, h, Additional.children]

theorem edges_map (f : α → β) (schema : Keywords α) :
    (schema.map f).edges = schema.edges.map fun edge => (edge.1, f edge.2) := by
  have hmembers (members : List α) :
      (members.map f).mapIdx (fun index member => (Edge.member index, member))
        = (members.mapIdx fun index member => (Edge.member index, member)).map
          fun edge => (edge.1, f edge.2) := by
    apply List.ext_getElem <;> simp
  have hrule : ∀ rule : Additional α, (rule.map f).children = rule.children.map f := by
    intro rule
    cases rule <;> rfl
  rcases schema with ⟨_, _, _, _, _, properties, _, additional, allOf, items, _⟩
  cases properties <;> cases additional <;> cases allOf <;> cases items <;>
    simp [edges, map, hrule, hmembers, Function.comp_def]

/-- New children hang on the old edges. -/
theorem edges_withChildren {schema : Keywords α} {children : List β}
    (h : children.length = schema.children.length) :
    (schema.withChildren children).edges = (schema.edges.map Prod.fst).zip children := by
  have hlabels : (schema.withChildren children).edges.map Prod.fst = schema.edges.map Prod.fst := by
    have hconst := congrArg (fun schema => schema.edges.map Prod.fst)
      (map_const_withChildren h ())
    simpa only [edges_map, List.map_map, Function.comp_def] using hconst
  refine List.zip_of_prod hlabels ?_
  rw [map_snd_edges, children_withChildren h]

/-- No edge stands twice where no name does. -/
theorem nodup_map_fst_edges {schema : Keywords α}
    (names : (Assoc.keys (schema.properties.getD [])).Nodup) :
    (schema.edges.map Prod.fst).Nodup := by
  have hmembers (members : List α) :
      (members.mapIdx fun index member => (Edge.member index, member)).map Prod.fst
        = (List.range members.length).map .member := by
    apply List.ext_getElem <;> simp
  have hlabels : schema.edges.map Prod.fst
      = (Assoc.keys (schema.properties.getD [])).map .property
        ++ (List.range (schema.allOf.getD []).length).map .member
        ++ schema.items.toList.map (fun _ => .items)
        ++ ((schema.additional.map Additional.children).getD []).map fun _ => .values := by
    simp [edges, hmembers, Assoc.keys, Function.comp_def]
  have hproperty : Function.Injective Edge.property := fun _ _ h => Edge.property.inj h
  have hmember : Function.Injective Edge.member := fun _ _ h => Edge.member.inj h
  have hitems : (schema.items.toList.map fun _ => Edge.items).Nodup := by
    cases schema.items <;> simp
  have hvalues : (((schema.additional.map Additional.children).getD []).map
      fun _ => Edge.values).Nodup := by
    rcases schema.additional with _ | _ | _ <;> simp [Additional.children]
  rw [hlabels, List.nodup_append', List.nodup_append', List.nodup_append']
  refine ⟨⟨⟨names.map hproperty, List.nodup_range.map hmember, ?_⟩, hitems, ?_⟩, hvalues, ?_⟩
  all_goals
    rw [List.disjoint_left]
    intro edge hfront hback
    simp only [List.mem_append, List.mem_map] at hfront hback
    grind

end Keywords

/-- One recursion over a schema, which sees it with what the recursion gives for its children. -/
def Schema.fold (f : Schema → Keywords β → β) (schema : Schema) : β :=
  f schema (schema.keywords.withChildren
    (schema.keywords.children.attach.map fun child => child.1.fold f))
termination_by sizeOf schema
decreasing_by
  have h := Keywords.sizeOf_lt_of_mem_children child.2
  cases schema
  simp [keywords] at h ⊢
  omega

theorem Schema.fold_eq (f : Schema → Keywords β → β) (schema : Schema) :
    schema.fold f = f schema (schema.keywords.map (fold f)) := by
  rw [fold, Keywords.map_eq_withChildren, List.attach_map_val]

/-- One recursion over a tree. -/
def Node.fold (onSchema : SchemaNode → Keywords β → β) (onType : TypeExpr → β) : Node → β
  | .resolved type => onType type
  | .pending schema => onSchema schema (schema.withChildren
      (schema.children.attach.map fun child => child.1.fold onSchema onType))
termination_by node => sizeOf node
decreasing_by
  have h := Keywords.sizeOf_lt_of_mem_children child.2
  cases schema
  simp at h ⊢
  omega

theorem Node.fold_pending (onSchema : SchemaNode → Keywords β → β) (onType : TypeExpr → β)
    (schema : SchemaNode) :
    (pending schema).fold onSchema onType
      = onSchema schema (schema.map (fold onSchema onType)) := by
  rw [fold, Keywords.map_eq_withChildren, List.attach_map_val]

end SchemaTypes
