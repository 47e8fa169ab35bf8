import Mathlib.Data.List.Flatten
import SchemaTypes.TypeExpr.Text

/-! Types up to unions directly inside unions and intersections directly inside intersections. -/
namespace SchemaTypes.TypeExpr

/-- The members of a union; any other type alone. -/
def alternatives : TypeExpr → List TypeExpr
  | .union members => members
  | type => [type]

/-- The members of an intersection; any other type alone. -/
def factors : TypeExpr → List TypeExpr
  | .intersection members => members
  | type => [type]

mutual
/-- The type with its nested unions and intersections flattened, those of one member collapsed, and
its descriptions replaced. -/
def normalWith (docs : Option String → Option String) : TypeExpr → TypeExpr
  | .array element => .array (normalWith docs element)
  | .union members => unionOf ((normalMembers docs members).flatMap alternatives)
  | .intersection members => intersectionOf ((normalMembers docs members).flatMap factors)
  | .object ⟨properties, index⟩ =>
    .object ⟨normalProperties docs properties, normalIndex docs index⟩
  | type => type

def normalMembers (docs : Option String → Option String) : List TypeExpr → List TypeExpr
  | [] => []
  | member :: rest => normalWith docs member :: normalMembers docs rest

def normalProperties (docs : Option String → Option String) : List Property → List Property
  | [] => []
  | ⟨name, type, optional, doc⟩ :: rest =>
    ⟨name, normalWith docs type, optional, docs doc⟩ :: normalProperties docs rest

def normalIndex (docs : Option String → Option String) : Option TypeExpr → Option TypeExpr
  | none => none
  | some value => some (normalWith docs value)
end

theorem normalMembers_eq_map (docs : Option String → Option String) (members : List TypeExpr) :
    normalMembers docs members = members.map (normalWith docs) := by
  induction members with
  | nil => rfl
  | cons member rest ih => rw [normalMembers, ih, List.map_cons]

/-- No union stands directly in a union, no intersection in an intersection. No union has one
member, and every intersection has two. -/
inductive IsFlat : TypeExpr → Prop
  | union {members : List TypeExpr} : members.length ≠ 1 → (∀ m ∈ members, IsFlat m) →
      (∀ m ∈ members, m.alternatives = [m]) → IsFlat (.union members)
  | intersection {members : List TypeExpr} : 1 < members.length → (∀ m ∈ members, IsFlat m) →
      (∀ m ∈ members, m.factors = [m]) → IsFlat (.intersection members)
  | single {type : TypeExpr} : type.isComposed = false → IsFlat type

namespace IsFlat

theorem alternatives_alone {type : TypeExpr} (h : IsFlat type) :
    ∀ m ∈ type.alternatives, IsFlat m ∧ m.alternatives = [m] := by
  cases h with
  | union _ hflat halone => exact fun m hm => ⟨hflat m hm, halone m hm⟩
  | intersection hlength hflat halone =>
    intro m hmem
    rw [List.mem_singleton.1 hmem]
    exact ⟨.intersection hlength hflat halone, rfl⟩
  | single hs =>
    have halone : type.alternatives = [type] := by cases type <;> first | rfl | cases hs
    intro m hmem
    rw [halone] at hmem
    rw [List.mem_singleton.1 hmem]
    exact ⟨.single hs, halone⟩

theorem factors_alone {type : TypeExpr} (h : IsFlat type) :
    ∀ m ∈ type.factors, IsFlat m ∧ m.factors = [m] := by
  cases h with
  | union hlength hflat halone =>
    intro m hmem
    rw [List.mem_singleton.1 hmem]
    exact ⟨.union hlength hflat halone, rfl⟩
  | intersection _ hflat halone => exact fun m hm => ⟨hflat m hm, halone m hm⟩
  | single hs =>
    have halone : type.factors = [type] := by cases type <;> first | rfl | cases hs
    intro m hmem
    rw [halone] at hmem
    rw [List.mem_singleton.1 hmem]
    exact ⟨.single hs, halone⟩

theorem unionOf {members : List TypeExpr} (h : ∀ m ∈ members, IsFlat m ∧ m.alternatives = [m]) :
    IsFlat (unionOf members) := by
  unfold TypeExpr.unionOf
  split
  · exact (h _ (by simp)).1
  next hne =>
    refine .union (fun hlength => ?_) (fun m hm => (h m hm).1) fun m hm => (h m hm).2
    obtain ⟨m, hm⟩ := List.length_eq_one_iff.1 hlength
    exact hne m hm

theorem intersectionOf {members : List TypeExpr} (h : ∀ m ∈ members, IsFlat m ∧ m.factors = [m]) :
    IsFlat (intersectionOf members) := by
  unfold TypeExpr.intersectionOf
  split
  · exact .single rfl
  · exact (h _ (by simp)).1
  next hnil hne =>
    refine .intersection ?_ (fun m hm => (h m hm).1) fun m hm => (h m hm).2
    match members with
    | [] => exact absurd rfl hnil
    | [m] => exact absurd rfl (hne m)
    | m :: n :: rest => simp

theorem unionOf_alternatives {type : TypeExpr} (h : IsFlat type) :
    TypeExpr.unionOf type.alternatives = type := by
  cases h with
  | @union members hlength =>
    match members with
    | [] => rfl
    | [m] => exact absurd rfl hlength
    | m :: n :: rest => rfl
  | intersection => rfl
  | single hs => cases type <;> first | rfl | cases hs

theorem intersectionOf_factors {type : TypeExpr} (h : IsFlat type) :
    TypeExpr.intersectionOf type.factors = type := by
  cases h with
  | union => rfl
  | @intersection members hlength =>
    match members with
    | [] => cases hlength
    | [m] => exact absurd hlength (Nat.lt_irrefl 1)
    | m :: n :: rest => rfl
  | single hs => cases type <;> first | rfl | cases hs

end IsFlat

mutual
theorem isFlat_normalWith (docs : Option String → Option String) :
    ∀ type : TypeExpr, IsFlat (type.normalWith docs)
  | .primitive _ | .literal _ | .array _ | .reference _ _ | .verbatim _ => .single rfl
  | .object ⟨_, _⟩ => .single rfl
  | .union members => by
    refine .unionOf fun m hm => ?_
    obtain ⟨member, hmember, hm⟩ := List.mem_flatMap.1 hm
    exact (isFlat_normalMembers docs members member hmember).alternatives_alone m hm
  | .intersection members => by
    refine .intersectionOf fun m hm => ?_
    obtain ⟨member, hmember, hm⟩ := List.mem_flatMap.1 hm
    exact (isFlat_normalMembers docs members member hmember).factors_alone m hm

theorem isFlat_normalMembers (docs : Option String → Option String) :
    ∀ members : List TypeExpr, ∀ m ∈ normalMembers docs members, IsFlat m
  | [] => by simp [normalMembers]
  | member :: rest => by
    rw [normalMembers]
    exact List.forall_mem_cons.2
      ⟨isFlat_normalWith docs member, isFlat_normalMembers docs rest⟩
end

/-- The alternatives of a type in normal form. -/
def alternativesWith (docs : Option String → Option String) (type : TypeExpr) : List TypeExpr :=
  (type.normalWith docs).alternatives

/-- The factors of a type in normal form. -/
def factorsWith (docs : Option String → Option String) (type : TypeExpr) : List TypeExpr :=
  (type.normalWith docs).factors

variable (docs : Option String → Option String)

theorem normalWith_union (members : List TypeExpr) :
    (union members).normalWith docs = unionOf (members.flatMap (alternativesWith docs)) := by
  rw [normalWith, normalMembers_eq_map, List.flatMap_map]
  rfl

theorem normalWith_intersection (members : List TypeExpr) :
    (intersection members).normalWith docs
      = intersectionOf (members.flatMap (factorsWith docs)) := by
  rw [normalWith, normalMembers_eq_map, List.flatMap_map]
  rfl

/-- A union of one member says the same as the member. -/
theorem normalWith_unionOf (members : List TypeExpr) :
    (unionOf members).normalWith docs = unionOf (members.flatMap (alternativesWith docs)) := by
  match members with
  | [member] =>
    rw [List.flatMap_singleton]
    exact (isFlat_normalWith docs member).unionOf_alternatives.symm
  | [] => rfl
  | m :: n :: rest => exact normalWith_union docs (m :: n :: rest)

/-- An intersection of one member says the same as the member. -/
theorem normalWith_intersectionOf (members : List TypeExpr) :
    (intersectionOf members).normalWith docs
      = intersectionOf (members.flatMap (factorsWith docs)) := by
  match members with
  | [member] =>
    rw [List.flatMap_singleton]
    exact (isFlat_normalWith docs member).intersectionOf_factors.symm
  | [] => rfl
  | m :: n :: rest => exact normalWith_intersection docs (m :: n :: rest)

theorem alternatives_unionOf {members : List TypeExpr}
    (h : ∀ m ∈ members, m.alternatives = [m]) : (unionOf members).alternatives = members := by
  unfold unionOf
  split
  · exact h _ (by simp)
  · rfl

theorem factors_intersectionOf {members : List TypeExpr} (hne : members ≠ [])
    (h : ∀ m ∈ members, m.factors = [m]) : (intersectionOf members).factors = members := by
  unfold intersectionOf
  split
  · exact absurd rfl hne
  · exact h _ (by simp)
  · rfl

theorem alternativesWith_union (members : List TypeExpr) :
    (union members).alternativesWith docs = members.flatMap (alternativesWith docs) := by
  rw [alternativesWith, normalWith_union]
  refine alternatives_unionOf fun m hm => ?_
  obtain ⟨member, _, hm⟩ := List.mem_flatMap.1 hm
  exact ((isFlat_normalWith docs member).alternatives_alone m hm).2

theorem factorsWith_ne_nil (type : TypeExpr) : type.factorsWith docs ≠ [] := by
  intro hnil
  have hself := (isFlat_normalWith docs type).intersectionOf_factors
  rw [factorsWith] at hnil
  rw [hnil] at hself
  rw [← hself] at hnil
  cases hnil

theorem factorsWith_intersection {members : List TypeExpr} (hne : members ≠ []) :
    (intersection members).factorsWith docs = members.flatMap (factorsWith docs) := by
  obtain ⟨member, rest, rfl⟩ := List.exists_cons_of_ne_nil hne
  have hfactors : (member :: rest).flatMap (factorsWith docs) ≠ [] := by
    rw [List.flatMap_cons]
    exact List.append_ne_nil_of_left_ne_nil (factorsWith_ne_nil docs member) _
  rw [factorsWith, normalWith_intersection]
  refine factors_intersectionOf hfactors fun m hm => ?_
  obtain ⟨source, _, hm⟩ := List.mem_flatMap.1 hm
  exact ((isFlat_normalWith docs source).factors_alone m hm).2

end SchemaTypes.TypeExpr
