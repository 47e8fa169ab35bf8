/-! Lists of named values in the order in which the names first came. Putting a value never makes
a name occur twice. -/
namespace SchemaTypes.Assoc

variable {α : Type}

def keys (entries : List (String × α)) : List String := entries.map Prod.fst

theorem keys_cons (name : String) (value : α) (entries : List (String × α)) :
    keys ((name, value) :: entries) = name :: keys entries := rfl

/-- Gives `name` the value, in its old place if it has one and at the end otherwise. -/
def put (name : String) (value : α) : List (String × α) → List (String × α)
  | [] => [(name, value)]
  | (other, old) :: rest =>
    if other = name then (name, value) :: rest else (other, old) :: put name value rest

def erase (name : String) (entries : List (String × α)) : List (String × α) :=
  entries.filter fun entry => entry.1 != name

/-- A name given twice keeps its first place and its last value. -/
def ofList (entries : List (String × α)) : List (String × α) :=
  entries.foldl (fun acc entry => put entry.1 entry.2 acc) []

def find? (name : String) (entries : List (String × α)) : Option α := entries.lookup name

theorem mem_keys_put (name : String) (value : α) (entries : List (String × α)) (k : String) :
    k ∈ keys (put name value entries) ↔ k = name ∨ k ∈ keys entries := by
  induction entries with
  | nil => simp [put, keys]
  | cons entry rest ih =>
    simp only [keys] at ih
    by_cases h : entry.1 = name <;> simp [put, keys, h, ih, or_left_comm]

theorem nodup_keys_put (name : String) (value : α) (entries : List (String × α))
    (h : (keys entries).Nodup) : (keys (put name value entries)).Nodup := by
  induction entries with
  | nil => simp [put, keys]
  | cons entry rest ih =>
    have hm := mem_keys_put name value rest entry.1
    simp only [keys] at ih hm
    simp only [keys, List.map_cons, List.nodup_cons] at h
    by_cases he : entry.1 = name
    · simpa [put, keys, he] using h
    · simp [put, keys, he, hm, h.1, ih h.2]

theorem nodup_keys_foldl_put (entries acc : List (String × α)) (h : (keys acc).Nodup) :
    (keys (entries.foldl (fun acc entry => put entry.1 entry.2 acc) acc)).Nodup := by
  induction entries generalizing acc with
  | nil => exact h
  | cons entry rest ih => exact ih _ (nodup_keys_put _ _ _ h)

theorem nodup_keys_ofList (entries : List (String × α)) : (keys (ofList entries)).Nodup :=
  nodup_keys_foldl_put entries [] List.nodup_nil

theorem mem_keys_ofList (entries : List (String × α)) (k : String) :
    k ∈ keys (ofList entries) ↔ k ∈ keys entries := by
  have hfold (acc : List (String × α)) : k ∈ keys (entries.foldl
      (fun acc entry => put entry.1 entry.2 acc) acc) ↔ k ∈ keys acc ∨ k ∈ keys entries := by
    induction entries generalizing acc with
    | nil => simp [keys]
    | cons entry rest ih =>
      have hkeys : k ∈ keys (entry :: rest) ↔ k = entry.1 ∨ k ∈ keys rest := List.mem_cons
      rw [List.foldl_cons, ih, mem_keys_put, hkeys, or_assoc, or_left_comm]
  have hempty : k ∉ keys ([] : List (String × α)) := List.not_mem_nil
  simp [ofList, hfold, hempty]

theorem put_of_notMem {name : String} {entries : List (String × α)} (h : name ∉ keys entries)
    (value : α) : put name value entries = entries ++ [(name, value)] := by
  induction entries with
  | nil => rfl
  | cons entry rest ih =>
    have hne : entry.1 ≠ name := fun heq => h (List.mem_cons.2 (Or.inl heq.symm))
    have hrest : name ∉ keys rest := fun hm => h (List.mem_cons_of_mem _ hm)
    simp [put, hne, ih hrest]

/-- Names that all differ are left as they are. -/
theorem ofList_of_nodup {entries : List (String × α)} (h : (keys entries).Nodup) :
    ofList entries = entries := by
  have hfold (acc : List (String × α)) (ha : (keys (acc ++ entries)).Nodup) :
      entries.foldl (fun acc entry => put entry.1 entry.2 acc) acc = acc ++ entries := by
    clear h
    induction entries generalizing acc with
    | nil => simp
    | cons entry rest ih =>
      have hnew : entry.1 ∉ keys acc := by
        rw [keys, List.map_append] at ha
        exact fun hm => (List.nodup_append.1 ha).2.2 _ hm _ List.mem_cons_self rfl
      have hacc : (acc ++ [entry]) ++ rest = acc ++ entry :: rest := by simp
      rw [List.foldl_cons, put_of_notMem hnew, ih _ (by rwa [hacc]), hacc]
  simpa [ofList] using hfold [] h

theorem find?_put (name : String) (value : α) (entries : List (String × α)) (k : String) :
    find? k (put name value entries) = if k = name then some value else find? k entries := by
  unfold find?
  induction entries with
  | nil =>
    by_cases h : k = name
    · simp [put, h]
    · simp [put, List.lookup_cons, h, beq_eq_false_iff_ne.2 h]
  | cons entry rest ih =>
    obtain ⟨other, old⟩ := entry
    by_cases he : other = name
    · by_cases h : k = name
      · simp [put, he, h]
      · simp [put, List.lookup_cons, he, h, beq_eq_false_iff_ne.2 h]
    · by_cases h : k = other
      · simp [put, he, h]
      · simp [put, List.lookup_cons, he, ih, beq_eq_false_iff_ne.2 h]

@[simp] theorem find?_cons (k name : String) (value : α) (entries : List (String × α)) :
    find? k ((name, value) :: entries) = if k = name then some value else find? k entries := by
  by_cases h : k = name
  · simp [find?, h]
  · simp [find?, List.lookup_cons, h, beq_eq_false_iff_ne.2 h]

theorem find?_erase (name : String) (entries : List (String × α)) (k : String) :
    find? k (erase name entries) = if k = name then none else find? k entries := by
  induction entries with
  | nil => simp [erase, find?]
  | cons entry rest ih =>
    obtain ⟨other, old⟩ := entry
    by_cases he : other = name
    · have hs : erase name ((other, old) :: rest) = erase name rest := by simp [erase, he]
      rw [hs, ih, find?_cons, he]
      split <;> rfl
    · have hs : erase name ((other, old) :: rest) = (other, old) :: erase name rest := by
        simp [erase, he]
      rw [hs, find?_cons, ih, find?_cons]
      by_cases h : k = other
      · simp [h, he]
      · simp [h]

/-- Putting the value that is there changes nothing. -/
theorem put_of_find?_eq_some {name : String} {value : α} {entries : List (String × α)}
    (h : find? name entries = some value) : put name value entries = entries := by
  induction entries with
  | nil => simp [find?] at h
  | cons entry rest ih =>
    obtain ⟨other, old⟩ := entry
    rw [find?_cons] at h
    by_cases hn : name = other
    · rw [if_pos hn] at h
      cases h
      simp [put, hn]
    · rw [if_neg hn] at h
      simp [put, Ne.symm hn, ih h]

theorem erase_of_find?_eq_none {name : String} {entries : List (String × α)}
    (h : find? name entries = none) : erase name entries = entries := by
  refine List.filter_eq_self.2 fun entry he => bne_iff_ne.2 ?_
  have hne := bne_iff_ne.1 (List.lookup_eq_none_iff.1 h entry he)
  exact hne.symm

theorem mem_of_find?_eq_some {name : String} {entries : List (String × α)} {value : α}
    (h : find? name entries = some value) : (name, value) ∈ entries := by
  obtain ⟨front, back, rfl, -⟩ := List.lookup_eq_some_iff.1 h
  simp

theorem find?_eq_none_of_notMem {k : String} {entries : List (String × α)} (h : k ∉ keys entries) :
    find? k entries = none := by
  refine List.lookup_eq_none_iff.2 fun entry he => bne_iff_ne.2 ?_
  rintro rfl
  exact h (List.mem_map.2 ⟨entry, he, rfl⟩)

theorem find?_eq_some_of_mem {entry : String × α} {entries : List (String × α)}
    (h : (keys entries).Nodup) (he : entry ∈ entries) : find? entry.1 entries = some entry.2 := by
  induction entries with
  | nil => simp at he
  | cons head rest ih =>
    obtain ⟨hn, hr⟩ := List.nodup_cons.1 h
    obtain ⟨name, value⟩ := head
    rcases List.mem_cons.1 he with rfl | hm
    · simp
    · have hne : entry.1 ≠ name := fun heq => hn (List.mem_map.2 ⟨entry, hm, heq⟩)
      rw [find?_cons, if_neg hne]
      exact ih hr hm

theorem forall_mem_put {p : α → Prop} {name : String} {value : α}
    {entries : List (String × α)} (hv : p value) (h : ∀ entry ∈ entries, p entry.2) :
    ∀ entry ∈ put name value entries, p entry.2 := by
  induction entries with
  | nil => simpa [put] using hv
  | cons entry rest ih =>
    obtain ⟨hentry, hrest⟩ := List.forall_mem_cons.1 h
    unfold put
    split
    · exact List.forall_mem_cons.2 ⟨hv, hrest⟩
    · exact List.forall_mem_cons.2 ⟨hentry, ih hrest⟩

theorem forall_mem_ofList {p : α → Prop} {entries : List (String × α)}
    (h : ∀ entry ∈ entries, p entry.2) : ∀ entry ∈ ofList entries, p entry.2 := by
  have hfold (acc : List (String × α)) (ha : ∀ entry ∈ acc, p entry.2) :
      ∀ entry ∈ entries.foldl (fun acc entry => put entry.1 entry.2 acc) acc, p entry.2 := by
    induction entries generalizing acc with
    | nil => exact ha
    | cons entry rest ih =>
      obtain ⟨hentry, hrest⟩ := List.forall_mem_cons.1 h
      exact ih hrest _ (forall_mem_put hentry ha)
  exact hfold [] (by simp)

end SchemaTypes.Assoc
