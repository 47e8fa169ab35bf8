import SchemaTypes.Proofs.ObjectLiterals
import SchemaTypes.Proofs.Position

/-! The objects of a tree whose literals stand in its type, where they stand, and who else requires
properties in them. -/
namespace SchemaTypes

/-- A schema of a tree, with the way to it. -/
structure Spot where
  position : Position
  schema : SchemaNode

def Spot.below (edge : Edge) (spot : Spot) : Spot :=
  { spot with position := edge :: spot.position }

/-- An object whose literal stands in the type of a tree. Its owners are the schemas that have the
literal as the whole type of a member, from the inside out. -/
structure Site where
  object : Spot
  owners : List Spot

namespace Site

def below (edge : Edge) (site : Site) : Site :=
  ⟨site.object.below edge, site.owners.map (Spot.below edge)⟩

def claimedBy (owner : Spot) (site : Site) : Site := { site with owners := site.owners ++ [owner] }

/-- The faces of the literal in the type: a property is optional if neither the object nor an owner
requires it. -/
def faces (site : Site) : List Face :=
  site.object.schema.ownFaces.map fun face => { face with
    optional := face.optional
      && site.owners.all fun owner => !owner.schema.required.contains face.name }

@[simp] theorem faces_below (edge : Edge) (site : Site) : (site.below edge).faces = site.faces := by
  simp only [faces, below, List.all_map]
  rfl

@[simp] theorem faces_claimedBy (owner : Spot) (site : Site) :
    (site.claimedBy owner).faces = site.faces.map (.requiredIn owner.schema.required) := by
  simp only [faces, claimedBy, List.map_map]
  refine List.map_congr_left fun face _ => ?_
  simp [Face.requiredIn, List.all_append, Bool.and_assoc]

end Site

namespace Node

/-- The objects of a member. If its type is one literal, the schema requires properties there. -/
def memberSites (container : String) (schema : SchemaNode) (index : Nat)
    (member : Node × List Site) : List Site :=
  let sites := member.2.map (Site.below (.member index))
  if (member.1.direct container).isObject then sites.modifyHead (Site.claimedBy ⟨[], schema⟩)
  else sites

/-- Those of the members, then the object itself and those of its properties. -/
def objectSites (container : String) (schema : SchemaNode) (below : Keywords (List Site)) :
    List Site :=
  if schema.isEmptyShape then [⟨⟨[], schema⟩, []⟩]
  else
    (((schema.allOf.getD []).zip (below.allOf.getD [])).mapIdx
      (memberSites container schema)).flatten
    ++ if schema.hasOwnLiteral then
      ⟨⟨[], schema⟩, []⟩ :: (below.properties.getD []).flatMap fun entry =>
        entry.2.map (Site.below (.property entry.1))
    else []

/-- The objects of a tree whose literals stand in its type, in the order of its text. -/
def sites (container : String) : Node → List Site :=
  fold (fun schema below => match schema.shape with
    | .object => objectSites container schema below
    | .array => (below.items.getD []).map (Site.below .items)
    | _ => []) fun _ => []

@[simp] theorem sites_resolved (container : String) (type : TypeExpr) :
    sites container (.resolved type) = [] := by
  rw [sites, fold]

theorem sites_pending (container : String) (schema : SchemaNode) :
    sites container (.pending schema) = match schema.shape with
      | .object => objectSites container schema (schema.map (sites container))
      | .array => (schema.items.toList.flatMap (sites container)).map (Site.below .items)
      | _ => [] := by
  rw [sites, fold_pending, ← sites]
  cases schema.shape with
  | array => cases h : schema.items <;> simp [h]
  | reference | primitive | object | unknown => rfl

/-- No type that was put into the tree has a literal. -/
inductive Bare : Node → Prop where
  | resolved {type : TypeExpr} (h : type.literals = []) : Bare (.resolved type)
  | pending {schema : SchemaNode} (below : ∀ child ∈ schema.children, child.Bare) :
    Bare (.pending schema)

theorem map_faces_memberSites (container : String) (schema : SchemaNode) (index : Nat)
    (member : Node × List Site) :
    (memberSites container schema index member).map Site.faces
      = if (member.1.direct container).isObject then
          (member.2.map Site.faces).modifyHead (List.map (.requiredIn schema.required))
        else member.2.map Site.faces := by
  obtain ⟨node, sites⟩ := member
  unfold memberSites
  cases (node.direct container).isObject with
  | false => simp [List.map_map, Function.comp_def]
  | true =>
    cases sites with
    | nil => rfl
    | cons site rest => simp [List.map_map, Function.comp_def]

theorem map_flatten_mapIdx {α β γ : Type} {f : Nat → α → List β} {view : β → γ} {g : α → List γ}
    {as : List α} (h : ∀ i, ∀ a ∈ as, (f i a).map view = g a) :
    (as.mapIdx f).flatten.map view = as.flatMap g := by
  have hmap : (as.mapIdx f).map (List.map view) = as.map g := by
    apply List.ext_getElem <;> simp [h]
  rw [List.map_flatten, hmap, List.flatMap_def]

theorem objectSites_map (container : String) (schema : SchemaNode) :
    objectSites container schema (schema.map (sites container))
      = if schema.isEmptyShape then [⟨⟨[], schema⟩, []⟩]
        else ((schema.allOf.getD []).mapIdx fun index member =>
            memberSites container schema index (member, member.sites container)).flatten
          ++ if schema.hasOwnLiteral then
            ⟨⟨[], schema⟩, []⟩ :: (schema.properties.getD []).flatMap fun entry =>
              (entry.2.sites container).map (Site.below (.property entry.1))
          else [] := by
  have hmembers (members : List Node) :
      (members.zip (members.map (sites container))).mapIdx (memberSites container schema)
        = members.mapIdx fun index member =>
          memberSites container schema index (member, member.sites container) := by
    apply List.ext_getElem <;> simp
  rw [objectSites, Keywords.getD_allOf_map, Keywords.getD_properties_map, hmembers,
    List.flatMap_map]

theorem map_faces_objectSites (container : String) {schema : SchemaNode}
    (h : ∀ child ∈ schema.children,
      (child.direct container).literals = (child.sites container).map Site.faces) :
    (objectSites container schema (schema.map (sites container))).map Site.faces
      = (schema.map (direct container)).objectType.literals := by
  have hmember : ∀ member ∈ schema.allOf.getD [],
      (member.direct container).literals = (member.sites container).map Site.faces := by
    intro member hm
    refine h member ?_
    simp [Keywords.children, hm]
  have hproperty : ∀ entry ∈ schema.properties.getD [],
      (entry.2.direct container).literals = (entry.2.sites container).map Site.faces :=
    fun entry he => h entry.2 (Keywords.mem_children_of_mem_properties he)
  have hmembers : (((schema.allOf.getD []).mapIdx fun index member =>
      memberSites container schema index (member, member.sites container)).flatten).map Site.faces
      = ((schema.map (direct container)).allOf.getD []).flatMap fun member =>
        if member.isObject then
          member.literals.modifyHead (List.map (.requiredIn schema.required))
        else member.literals := by
    rw [map_flatten_mapIdx fun index member _ =>
      map_faces_memberSites container schema index (member, member.sites container),
      Keywords.getD_allOf_map, List.flatMap_map]
    refine List.flatMap_congr fun member hm => ?_
    simp only [hmember member hm]
  have hproperties : ((schema.properties.getD []).flatMap fun entry =>
      (entry.2.sites container).map (Site.below (.property entry.1))).map Site.faces
      = ((schema.map (direct container)).properties.getD []).flatMap fun entry =>
        entry.2.literals := by
    rw [Keywords.getD_properties_map, List.flatMap_map, List.map_flatMap]
    refine List.flatMap_congr fun entry he => ?_
    simp only [List.map_map, Function.comp_def, Site.faces_below, hproperty entry he]
  rw [objectSites_map, Keywords.literals_objectType, Keywords.isEmptyShape_map,
    Keywords.hasOwnLiteral_map, Keywords.ownFaces_map, Keywords.map_required, ← hmembers,
    ← hproperties]
  split
  next he =>
    have hnone := (Bool.and_eq_true_iff.1 (Bool.and_eq_true_iff.1 he).1).1
    simp [Site.faces, Keywords.ownFaces, List.isEmpty_iff.1 hnone]
  next =>
    rw [List.map_append]
    cases schema.hasOwnLiteral with
    | true => simp [Site.faces]
    | false => simp

/-- The literals in the type of a tree are those of its objects. -/
theorem literals_direct (container : String) {node : Node} (h : node.Bare) :
    (node.direct container).literals = (node.sites container).map Site.faces := by
  induction node using Node.induction with
  | resolved type =>
    cases h with
    | resolved hliterals => rw [direct_resolved, sites_resolved, hliterals, List.map_nil]
  | pending schema ih =>
    cases h with
    | pending below =>
      have hchildren := fun child hc => ih child hc (below child hc)
      rw [direct_pending, sites_pending, Keywords.typeOf_eq, Keywords.shape_map]
      cases schema.shape with
      | object => exact (map_faces_objectSites container hchildren).symm
      | primitive => exact Keywords.literals_scalarType _
      | array =>
        cases hi : schema.items with
        | none => simp [hi, TypeExpr.literals, TypeExpr.any]
        | some child =>
          have hchild := hchildren child (by simp [Keywords.children, hi])
          simp [hi, TypeExpr.literals, hchild, Function.comp_def]
      | reference | unknown => rfl

/-! ### Where the objects stand -/

/-- The schema stands in the tree at the position. -/
inductive At : Node → Position → SchemaNode → Prop where
  | here (schema : SchemaNode) : At (.pending schema) [] schema
  | inside {schema target : SchemaNode} {edge : Edge} {child : Node} {position : Position}
    (h : (edge, child) ∈ schema.edges) (below : At child position target) :
    At (.pending schema) (edge :: position) target

theorem mem_memberSites {container : String} {schema : SchemaNode} {index : Nat}
    {member : Node × List Site} {site : Site}
    (h : site ∈ memberSites container schema index member) :
    ∃ inner ∈ member.2, site = inner.below (.member index)
      ∨ site = (inner.below (.member index)).claimedBy ⟨[], schema⟩
        ∧ (member.1.direct container).isObject ∧ member.2.head? = some inner := by
  obtain ⟨node, sites⟩ := member
  unfold memberSites at h
  cases ho : (node.direct container).isObject with
  | false =>
    simp only [ho, Bool.false_eq_true, if_false] at h
    obtain ⟨inner, hinner, rfl⟩ := List.mem_map.1 h
    exact ⟨inner, hinner, .inl rfl⟩
  | true =>
    simp only [ho, if_true] at h
    cases sites with
    | nil => simp at h
    | cons first rest =>
      rw [List.map_cons, List.modifyHead_cons, List.mem_cons] at h
      rcases h with rfl | h
      · exact ⟨first, List.mem_cons_self, .inr ⟨rfl, rfl, rfl⟩⟩
      · obtain ⟨inner, hinner, rfl⟩ := List.mem_map.1 h
        exact ⟨inner, List.mem_cons_of_mem _ hinner, .inl rfl⟩

/-- An object of a tree is the one at its root, or one of a child, and it may be claimed there. -/
theorem mem_sites_pending {container : String} {schema : SchemaNode} {site : Site}
    (h : site ∈ sites container (.pending schema)) :
    site = ⟨⟨[], schema⟩, []⟩ ∨ ∃ edge child inner, (edge, child) ∈ schema.edges
      ∧ inner ∈ child.sites container ∧ (site = inner.below edge
        ∨ ∃ index, edge = .member index ∧ site = (inner.below edge).claimedBy ⟨[], schema⟩
          ∧ (child.direct container).isObject ∧ (child.sites container).head? = some inner) := by
  rw [sites_pending] at h
  cases hs : schema.shape with
  | reference | primitive | unknown => simp [hs] at h
  | array =>
    simp only [hs, List.mem_map, List.mem_flatMap, Option.mem_toList] at h
    obtain ⟨inner, ⟨child, hc, hinner⟩, rfl⟩ := h
    exact .inr ⟨.items, child, inner, Keywords.mem_edges.2 hc, hinner, .inl rfl⟩
  | object =>
    simp only [hs, objectSites_map] at h
    split at h
    · exact .inl (List.mem_singleton.1 h)
    · rcases List.mem_append.1 h with h | h
      · obtain ⟨sites, hsites, hsite⟩ := List.mem_flatten.1 h
        obtain ⟨index, hindex, rfl⟩ := List.mem_mapIdx.1 hsites
        obtain ⟨inner, hinner, hinside⟩ := mem_memberSites hsite
        refine .inr ⟨.member index, _, inner,
          Keywords.mem_edges.2 (List.getElem?_eq_getElem hindex), hinner, ?_⟩
        rcases hinside with hsite | ⟨hsite, ho, hhead⟩
        · exact .inl hsite
        · exact .inr ⟨index, rfl, hsite, ho, hhead⟩
      · split at h
        · rcases List.mem_cons.1 h with rfl | h
          · exact .inl rfl
          · obtain ⟨entry, he, hsite⟩ := List.mem_flatMap.1 h
            obtain ⟨inner, hinner, rfl⟩ := List.mem_map.1 hsite
            exact .inr ⟨.property entry.1, entry.2, inner, Keywords.mem_edges.2 he, hinner,
              .inl rfl⟩
        · simp at h

/-- Every object of a tree stands in it, with its owners. -/
theorem at_of_mem_sites {container : String} {node : Node} {site : Site}
    (h : site ∈ node.sites container) : At node site.object.position site.object.schema
      ∧ ∀ owner ∈ site.owners, At node owner.position owner.schema := by
  induction node using Node.induction generalizing site with
  | resolved type => simp at h
  | pending schema ih =>
    rcases mem_sites_pending h with rfl | ⟨edge, child, inner, hedge, hinner, hsite⟩
    · exact ⟨.here schema, by simp⟩
    · have hchild := Keywords.mem_children_of_mem_edges hedge
      obtain ⟨hobject, howners⟩ := ih child hchild hinner
      have hbelow : At (.pending schema) (inner.below edge).object.position
          (inner.below edge).object.schema := .inside hedge hobject
      have hownersBelow : ∀ owner ∈ (inner.below edge).owners,
          At (.pending schema) owner.position owner.schema := by
        intro owner ho
        obtain ⟨old, hold, rfl⟩ := List.mem_map.1 ho
        exact .inside hedge (howners old hold)
      rcases hsite with rfl | ⟨index, -, rfl, -, -⟩
      · exact ⟨hbelow, hownersBelow⟩
      · refine ⟨hbelow, fun owner ho => ?_⟩
        rcases List.mem_append.1 ho with ho | ho
        · exact hownersBelow owner ho
        · obtain rfl := List.mem_singleton.1 ho
          exact .here schema

theorem head?_memberSites {container : String} {schema : SchemaNode} {index : Nat}
    {member : Node × List Site} {site : Site} (h : (member.1.direct container).isObject)
    (hs : (memberSites container schema index member).head? = some site) :
    ∃ inner, member.2.head? = some inner
      ∧ site = (inner.below (.member index)).claimedBy ⟨[], schema⟩ := by
  obtain ⟨node, _ | ⟨first, rest⟩⟩ := member
  · simp [memberSites] at hs
  · rw [memberSites, if_pos h] at hs
    exact ⟨first, rfl, (Option.some.inj hs).symm⟩

theorem head?_objectSites {container : String} {schema : SchemaNode} {site : Site}
    (h : (schema.map (direct container)).objectType.isObject)
    (hs : (objectSites container schema (schema.map (sites container))).head? = some site) :
    site = ⟨⟨[], schema⟩, []⟩ ∨ ∃ member inner, member ∈ schema.allOf.getD []
      ∧ (member.direct container).isObject ∧ (member.sites container).head? = some inner
      ∧ site.object = inner.object.below (.member 0) := by
  rw [objectSites_map] at hs
  cases he : schema.isEmptyShape with
  | true =>
    rw [he, if_pos rfl] at hs
    exact .inl (Option.some.inj hs).symm
  | false =>
    rw [he, if_neg Bool.false_ne_true] at hs
    have hconjunct := conjunct_of_isObject ((Keywords.isEmptyShape_map _ _).trans he) h
    rw [Keywords.getD_allOf_map, Keywords.hasOwnLiteral_map] at hconjunct
    rcases hconjunct with ⟨hmembers, hown⟩ | ⟨type, hmembers, hown, htype⟩
    · rw [List.map_eq_nil_iff.1 hmembers, hown] at hs
      exact .inl (Option.some.inj hs).symm
    · obtain ⟨member, hmember, rfl⟩ := List.map_eq_singleton_iff.1 hmembers
      rw [hmember, hown] at hs
      have hfirst : (memberSites container schema 0 (member, member.sites container)).head?
          = some site := by simpa using hs
      obtain ⟨inner, hinner, rfl⟩ := head?_memberSites htype hfirst
      exact .inr ⟨member, inner, by simp [hmember], htype, hinner, rfl⟩

/-- If the type of a tree is a literal, its object stands at the root or in members of members. -/
theorem position_of_head?_sites {container : String} {node : Node} {site : Site}
    (h : (node.direct container).isObject) (hs : (node.sites container).head? = some site) :
    ∀ edge ∈ site.object.position, ∃ index, edge = .member index := by
  induction node using Node.induction generalizing site with
  | resolved type => simp at hs
  | pending schema ih =>
    rw [direct_pending, Keywords.typeOf_eq, Keywords.shape_map] at h
    rw [sites_pending] at hs
    cases hshape : schema.shape with
    | reference | primitive | unknown => simp [hshape] at hs
    | array => simp [hshape, TypeExpr.isObject] at h
    | object =>
      rw [hshape] at h hs
      rcases head?_objectSites h hs with rfl | ⟨member, inner, hmember, htype, hinner, hobject⟩
      · simp
      · have hchild : member ∈ schema.children := by simp [Keywords.children, hmember]
        rw [hobject]
        intro edge he
        rcases List.mem_cons.1 he with rfl | he
        · exact ⟨0, rfl⟩
        · exact ih member hchild htype hinner edge he

end Node

/-- The literal of the object is the whole type of a member of the owner, and the way from there to
the object leads through members only. -/
def Spot.Owns (container : String) (owner : Spot) (site : Site) : Prop :=
  ∃ index member literal further, (owner.schema.allOf.getD [])[index]? = some member
    ∧ member.direct container = .object literal ∧ literal.properties.map Property.face = site.faces
    ∧ site.object.position = owner.position ++ .member index :: further
    ∧ ∀ edge ∈ further, ∃ i, edge = .member i

theorem Spot.Owns.below {container : String} {owner : Spot} {site : Site}
    (h : owner.Owns container site) (edge : Edge) :
    (owner.below edge).Owns container (site.below edge) := by
  obtain ⟨index, member, literal, further, hmember, htype, hfaces, hposition, hfurther⟩ := h
  refine ⟨index, member, literal, further, hmember, htype, ?_, ?_, hfurther⟩
  · rw [Site.faces_below, hfaces]
  · exact congrArg (edge :: ·) hposition

namespace Node

/-- A schema owns the first object of a member whose type is one literal. -/
theorem owns_of_head? {container : String} {schema : SchemaNode} {index : Nat} {member : Node}
    {first : Site} (h : member.Bare) (hm : (schema.allOf.getD [])[index]? = some member)
    (htype : (member.direct container).isObject)
    (hhead : (member.sites container).head? = some first) :
    (⟨[], schema⟩ : Spot).Owns container (first.below (.member index)) := by
  cases hdirect : member.direct container with
  | object literal =>
    have hfaces : literal.properties.map Property.face = first.faces := by
      have hliterals := congrArg List.head? (literals_direct container h)
      rw [hdirect, List.head?_map, hhead] at hliterals
      cases literal
      exact Option.some.inj hliterals
    refine ⟨index, member, literal, first.object.position, hm, hdirect, ?_, rfl, ?_⟩
    · rw [Site.faces_below, hfaces]
    · exact position_of_head?_sites htype hhead
  | primitive | literal | array | union | intersection | reference | verbatim =>
    simp [hdirect, TypeExpr.isObject] at htype

/-- Each owner of an object has its literal, as the owners further inside leave it, as the type of a
member. -/
theorem owns_of_mem_sites {container : String} {node : Node} (h : node.Bare) {site : Site}
    (hs : site ∈ node.sites container) {inner outer : List Spot} {owner : Spot}
    (ho : site.owners = inner ++ owner :: outer) : owner.Owns container ⟨site.object, inner⟩ := by
  induction node using Node.induction generalizing site inner owner outer with
  | resolved type => simp at hs
  | pending schema ih =>
    cases h with
    | pending below =>
      rcases mem_sites_pending hs with rfl | ⟨edge, child, first, hedge, hfirst, hsite⟩
      · simp at ho
      · have hchild := Keywords.mem_children_of_mem_edges hedge
        have hinside (inner outer : List Spot) (owner : Spot)
            (ho : (first.below edge).owners = inner ++ owner :: outer) :
            owner.Owns container ⟨(first.below edge).object, inner⟩ := by
          obtain ⟨olds, more, hsplit, rfl, hmore⟩ := List.map_eq_append_iff.1 ho
          obtain ⟨old, rest, rfl, rfl, -⟩ := List.map_eq_cons_iff.1 hmore
          exact (ih child hchild (below child hchild) hfirst hsplit).below edge
        rcases hsite with rfl | ⟨index, rfl, rfl, htype, hhead⟩
        · exact hinside inner outer owner ho
        · have howners : (first.below (.member index)).owners ++ [⟨[], schema⟩]
              = inner ++ owner :: outer := ho
          -- the last owner is this schema, the others are owners inside the member
          rcases List.eq_nil_or_concat' outer with rfl | ⟨others, last, rfl⟩
          · obtain ⟨rfl, hlast⟩ := List.append_inj' howners rfl
            obtain ⟨rfl, -⟩ := List.cons.inj hlast
            exact owns_of_head? (below child hchild) (Keywords.mem_edges.1 hedge) htype hhead
          · rw [← List.cons_append, ← List.append_assoc] at howners
            obtain ⟨howners, -⟩ := List.append_inj' howners rfl
            exact hinside inner others owner howners

end Node
end SchemaTypes
