/-! The required property names of one object. -/
namespace SchemaTypes

/-- Names without repetition, in the order in which they were added. -/
@[ext]
structure RequiredSet where
  names : List String
  nodup : names.Nodup
deriving DecidableEq, Repr

namespace RequiredSet

def empty : RequiredSet := ⟨[], List.nodup_nil⟩

instance : Inhabited RequiredSet := ⟨empty⟩

def contains (set : RequiredSet) (name : String) : Bool := set.names.contains name

/-- Adds a name at the end, and tells whether it was absent. -/
def insert (set : RequiredSet) (name : String) : RequiredSet × Bool :=
  if h : name ∈ set.names then (set, false)
  else
    (⟨set.names ++ [name], by
      refine List.nodup_append.2 ⟨set.nodup, List.nodup_cons.2 ⟨by simp, List.nodup_nil⟩, ?_⟩
      rintro a ha b hb rfl
      exact h (List.mem_singleton.1 hb ▸ ha)⟩, true)

/-- Takes a name out, and tells whether it was present. -/
def remove (set : RequiredSet) (name : String) : RequiredSet × Bool :=
  (⟨set.names.filter (· != name), set.nodup.filter _⟩, set.contains name)

/-- Repeated names count once, at their first place. -/
def ofList (names : List String) : RequiredSet :=
  names.foldl (fun set name => (set.insert name).1) empty

def size (set : RequiredSet) : Nat := set.names.length

def isEmpty (set : RequiredSet) : Bool := set.names.isEmpty

@[simp] theorem contains_eq_true_iff (set : RequiredSet) (name : String) :
    set.contains name = true ↔ name ∈ set.names := by
  simp [contains]

/-- A name that is there already keeps its place. -/
theorem names_insert (set : RequiredSet) (name : String) :
    (set.insert name).1.names = if name ∈ set.names then set.names else set.names ++ [name] := by
  unfold insert
  split <;> simp_all

theorem insert_snd (set : RequiredSet) (name : String) :
    (set.insert name).2 = !set.contains name := by
  unfold insert
  split <;> simp_all [contains]

@[simp] theorem names_remove (set : RequiredSet) (name : String) :
    (set.remove name).1.names = set.names.filter (· != name) := rfl

@[simp] theorem remove_snd (set : RequiredSet) (name : String) :
    (set.remove name).2 = set.contains name := rfl

theorem insert_of_contains {set : RequiredSet} {name : String} (h : set.contains name) :
    (set.insert name).1 = set := by
  simp [insert, (contains_eq_true_iff set name).1 h]

theorem remove_of_contains_eq_false {set : RequiredSet} {name : String}
    (h : set.contains name = false) : (set.remove name).1 = set := by
  refine RequiredSet.ext (List.filter_eq_self.2 fun other ho => bne_iff_ne.2 ?_)
  rintro rfl
  rw [(contains_eq_true_iff set other).2 ho] at h
  cases h

theorem mem_names_insert (set : RequiredSet) (name k : String) :
    k ∈ (set.insert name).1.names ↔ k = name ∨ k ∈ set.names := by
  rw [names_insert]
  split
  · rename_i h
    constructor
    · exact Or.inr
    · rintro (rfl | hk)
      · exact h
      · exact hk
  · simp [or_comm]

theorem mem_names_remove (set : RequiredSet) (name k : String) :
    k ∈ (set.remove name).1.names ↔ k ∈ set.names ∧ k ≠ name := by
  simp

theorem mem_names_foldl_insert (names : List String) (set : RequiredSet) (k : String) :
    k ∈ (names.foldl (fun set name => (set.insert name).1) set).names
      ↔ k ∈ set.names ∨ k ∈ names := by
  induction names generalizing set with
  | nil => simp
  | cons name rest ih =>
    rw [List.foldl_cons, ih, mem_names_insert, List.mem_cons]
    constructor
    · rintro ((h | h) | h)
      · exact Or.inr (Or.inl h)
      · exact Or.inl h
      · exact Or.inr (Or.inr h)
    · rintro (h | h | h)
      · exact Or.inl (Or.inr h)
      · exact Or.inl (Or.inl h)
      · exact Or.inr h

theorem mem_names_ofList (names : List String) (k : String) :
    k ∈ (ofList names).names ↔ k ∈ names := by
  rw [ofList, mem_names_foldl_insert]
  simp [empty]

theorem contains_ofList (names : List String) (k : String) :
    (ofList names).contains k = names.contains k := by
  rw [Bool.eq_iff_iff, contains_eq_true_iff, mem_names_ofList, List.contains_iff_mem]

theorem contains_insert (set : RequiredSet) (name k : String) :
    (set.insert name).1.contains k = (k == name || set.contains k) := by
  rw [Bool.eq_iff_iff, contains_eq_true_iff, mem_names_insert]
  simp

theorem contains_remove (set : RequiredSet) (name k : String) :
    (set.remove name).1.contains k = (set.contains k && k != name) := by
  rw [Bool.eq_iff_iff, contains_eq_true_iff, mem_names_remove]
  simp

theorem names_foldl_insert (names : List String) (set : RequiredSet)
    (h : (set.names ++ names).Nodup) :
    (names.foldl (fun set name => (set.insert name).1) set).names = set.names ++ names := by
  induction names generalizing set with
  | nil => simp
  | cons name rest ih =>
    have hn : name ∉ set.names := fun hm => (List.nodup_append.1 h).2.2 name hm name (by simp) rfl
    have hi : (set.insert name).1.names = set.names ++ [name] := by rw [names_insert, if_neg hn]
    rw [List.foldl_cons, ih _ (by simpa [hi] using h), hi]
    simp

/-- Names that are already a set come out as they went in. -/
@[simp] theorem ofList_names (set : RequiredSet) : ofList set.names = set := by
  have h : (empty.names ++ set.names).Nodup := by simpa [empty] using set.nodup
  refine RequiredSet.ext ?_
  rw [ofList, names_foldl_insert set.names empty h]
  rfl

end RequiredSet
end SchemaTypes
