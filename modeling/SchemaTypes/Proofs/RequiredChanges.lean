import Mathlib.Data.Set.Card
import SchemaTypes.RequiredSet

/-! Runs of changes on a set of required names. The last change of a name decides whether it is
there, and the names stand in the order in which they last arrived. -/
namespace SchemaTypes.RequiredSet

inductive Change where
  | insert (name : String)
  | remove (name : String)
deriving DecidableEq, Repr

namespace Change

def name : Change → String
  | .insert name => name
  | .remove name => name

/-- Whether the name is there after the change. -/
def leaves : Change → Bool
  | .insert _ => true
  | .remove _ => false

end Change

/-- One change, with what it reports. -/
def apply (set : RequiredSet) : Change → RequiredSet × Bool
  | .insert name => set.insert name
  | .remove name => set.remove name

def after (set : RequiredSet) (changes : List Change) : RequiredSet :=
  changes.foldl (fun set change => (set.apply change).1) set

/-- Whether a name is there after a run: its last change decides, or the start if it has none. -/
def isPresent (start : List String) (changes : List Change) (name : String) : Bool :=
  match (changes.filter (·.name == name)).getLast? with
  | some change => change.leaves
  | none => start.contains name

/-- The steps at which a name arrived: it was absent before, and is there after them. -/
def arrivals (start : List String) (changes : List Change) (name : String) : List Nat :=
  (List.range changes.length).filter fun step =>
    !isPresent start (changes.take step) name && isPresent start (changes.take (step + 1)) name

/-- When a name last arrived. The names of the start come first, by their first places. -/
def lastArrival (start : List String) (changes : List Change) (name : String) : Nat :=
  match (arrivals start changes name).getLast? with
  | some step => start.length + step
  | none => start.idxOf name

variable (set : RequiredSet) (start : List String) (changes : List Change) (change : Change)

theorem after_concat : set.after (changes ++ [change]) = ((set.after changes).apply change).1 := by
  simp [after]

theorem ofList_concat (name : String) :
    ofList (start ++ [name]) = ((ofList start).insert name).1 := by
  simp [ofList]

section Presence

variable (name : String)

theorem contains_apply :
    (set.apply change).1.contains name
      = if change.name = name then change.leaves else set.contains name := by
  cases change with
  | insert other =>
    rw [apply, contains_insert, Change.name, Change.leaves]
    by_cases h : name = other
    · simp [h]
    · simp [h, Ne.symm h]
  | remove other =>
    rw [apply, contains_remove, Change.name, Change.leaves]
    by_cases h : name = other
    · simp [h]
    · simp [h, Ne.symm h]

theorem isPresent_concat :
    isPresent start (changes ++ [change]) name
      = if change.name = name then change.leaves else isPresent start changes name := by
  by_cases h : change.name = name <;> simp [isPresent, h]

theorem contains_after :
    ((ofList start).after changes).contains name = isPresent start changes name := by
  induction changes using List.reverseRecOn with
  | nil => exact contains_ofList start name
  | append_singleton changes change ih =>
    rw [after_concat, contains_apply, isPresent_concat, ih]

theorem mem_names_after :
    name ∈ ((ofList start).after changes).names ↔ isPresent start changes name := by
  rw [← contains_eq_true_iff, contains_after]

/-- The set has as many names as are present. -/
theorem encard_present :
    {name | isPresent start changes name}.encard = ((ofList start).after changes).size := by
  have hpresent : {name | isPresent start changes name}
      = (((ofList start).after changes).names.toFinset : Set String) := by
    ext name
    simp [mem_names_after]
  rw [hpresent, Set.encard_coe_eq_coe_finsetCard, List.toFinset_card_of_nodup (nodup _), size]

end Presence

section Arrivals

variable {name : String}

theorem arrivals_concat :
    arrivals start (changes ++ [change]) name = arrivals start changes name
      ++ if !isPresent start changes name && isPresent start (changes ++ [change]) name
        then [changes.length] else [] := by
  have hbefore : ∀ step ∈ List.range changes.length,
      (!isPresent start ((changes ++ [change]).take step) name
          && isPresent start ((changes ++ [change]).take (step + 1)) name)
        = (!isPresent start (changes.take step) name
          && isPresent start (changes.take (step + 1)) name) := by
    intro step hstep
    have hlt : step < changes.length := List.mem_range.1 hstep
    rw [List.take_append_of_le_length hlt.le, List.take_append_of_le_length hlt]
  have hlast : (changes ++ [change]).take (changes.length + 1) = changes ++ [change] :=
    List.take_of_length_le (by simp)
  rw [arrivals, List.length_append, List.length_singleton, List.range_succ, List.filter_append,
    List.filter_congr hbefore, List.filter_singleton, Bool.cond_eq_ite, List.take_left, hlast,
    arrivals]

/-- A name that is there already does not arrive again. -/
theorem lastArrival_concat_of_isPresent (h : isPresent start changes name) :
    lastArrival start (changes ++ [change]) name = lastArrival start changes name := by
  simp [lastArrival, arrivals_concat, h]

theorem lastArrival_concat_of_arrives (habsent : isPresent start changes name = false)
    (h : isPresent start (changes ++ [change]) name) :
    lastArrival start (changes ++ [change]) name = start.length + changes.length := by
  simp [lastArrival, arrivals_concat, habsent, h]

theorem lastArrival_lt (h : isPresent start changes name) :
    lastArrival start changes name < start.length + changes.length := by
  induction changes using List.reverseRecOn with
  | nil => exact List.idxOf_lt_length_iff.2 (List.contains_iff_mem.1 h)
  | append_singleton changes change ih =>
    rw [List.length_append, List.length_singleton]
    cases hbefore : isPresent start changes name with
    | true =>
      rw [lastArrival_concat_of_isPresent start changes change hbefore]
      have hlt := ih hbefore
      omega
    | false =>
      rw [lastArrival_concat_of_arrives start changes change hbefore h]
      omega

end Arrivals

section Order

variable {set} {time later : String → Nat}

/-- Names that keep their times stay in order. -/
theorem pairwise_of_kept (h : set.names.Pairwise fun a b => time a < time b)
    (hkept : ∀ k ∈ set.names, later k = time k) :
    set.names.Pairwise fun a b => later a < later b :=
  h.imp_of_mem fun ha hb hab => by rwa [hkept _ ha, hkept _ hb]

/-- A new name stands behind all others, so it has to be later. -/
theorem pairwise_names_insert {name : String}
    (h : set.names.Pairwise fun a b => time a < time b)
    (hlast : name ∉ set.names → ∀ k ∈ set.names, time k < time name) :
    (set.insert name).1.names.Pairwise fun a b => time a < time b := by
  rw [names_insert]
  split
  next => exact h
  next habsent =>
    refine List.pairwise_append.2 ⟨h, List.pairwise_singleton _ _, ?_⟩
    intro k hk other hother
    rw [List.mem_singleton.1 hother]
    exact hlast habsent k hk

theorem pairwise_idxOf_ofList :
    (ofList start).names.Pairwise fun a b => start.idxOf a < start.idxOf b := by
  induction start using List.reverseRecOn with
  | nil => exact .nil
  | append_singleton start name ih =>
    have hkept : ∀ k ∈ (ofList start).names, (start ++ [name]).idxOf k = start.idxOf k :=
      fun k hk => List.idxOf_append_of_mem ((mem_names_ofList start k).1 hk)
    rw [ofList_concat]
    apply pairwise_names_insert (pairwise_of_kept ih hkept)
    intro habsent k hk
    rw [hkept k hk]
    rw [mem_names_ofList] at habsent hk
    rw [List.idxOf_append_of_notMem habsent]
    have hlt := List.idxOf_lt_length_iff.2 hk
    omega

theorem pairwise_lastArrival :
    ((ofList start).after changes).names.Pairwise fun a b =>
      lastArrival start changes a < lastArrival start changes b := by
  -- From the last change back: the names that stay keep their times, and a new one is the latest.
  induction changes using List.reverseRecOn with
  | nil => exact pairwise_idxOf_ofList start
  | append_singleton changes change ih =>
    have hkept : ∀ k ∈ ((ofList start).after changes).names,
        lastArrival start (changes ++ [change]) k = lastArrival start changes k := by
      intro k hk
      exact lastArrival_concat_of_isPresent start changes change
        ((mem_names_after start changes k).1 hk)
    have hstay := pairwise_of_kept ih hkept
    rw [after_concat]
    cases change with
    | insert name =>
      apply pairwise_names_insert hstay
      intro habsent k hk
      rw [hkept k hk]
      rw [mem_names_after, Bool.not_eq_true] at habsent
      rw [lastArrival_concat_of_arrives start changes (.insert name) habsent
        (by simp [isPresent_concat, Change.name, Change.leaves])]
      exact lastArrival_lt start changes ((mem_names_after start changes k).1 hk)
    | remove name => exact hstay.sublist List.filter_sublist

end Order

section Others

variable {set change} {other : RequiredSet} {name : String}

/-- The other names stay as they are, in their order. -/
theorem filter_names_apply_of_eq (h : change.name = name) :
    (set.apply change).1.names.filter (· != name) = set.names.filter (· != name) := by
  cases change with
  | insert added =>
    rw [Change.name] at h
    rw [apply, names_insert]
    split
    next => rfl
    next => simp [h]
  | remove removed =>
    rw [Change.name] at h
    simp [apply, h]

theorem filter_names_apply_of_ne (hne : change.name ≠ name)
    (h : set.names.filter (· != name) = other.names.filter (· != name)) :
    (set.apply change).1.names.filter (· != name)
      = (other.apply change).1.names.filter (· != name) := by
  cases change with
  | insert added =>
    rw [Change.name] at hne
    have hmem : added ∈ set.names ↔ added ∈ other.names := by
      have hfilter := congrArg (added ∈ ·) h
      simpa [hne] using hfilter
    rw [apply, apply, names_insert, names_insert]
    by_cases hadded : added ∈ other.names
    · rw [if_pos (hmem.2 hadded), if_pos hadded, h]
    · rw [if_neg (mt hmem.1 hadded), if_neg hadded, List.filter_append, List.filter_append, h]
  | remove removed =>
    rw [apply, apply, names_remove, names_remove, List.filter_comm, h, List.filter_comm]

/-- Without the changes of a name, the other names come out the same. -/
theorem filter_names_after :
    (set.after changes).names.filter (· != name)
      = (set.after (changes.filter (·.name != name))).names.filter (· != name) := by
  induction changes using List.reverseRecOn with
  | nil => rfl
  | append_singleton changes change ih =>
    rw [after_concat, List.filter_append]
    by_cases hname : change.name = name
    · rw [filter_names_apply_of_eq hname, ih]
      simp [hname]
    · have hlast : [change].filter (·.name != name) = [change] := by simp [hname]
      rw [hlast, after_concat]
      exact filter_names_apply_of_ne hname ih

end Others

section Reports

theorem names_remove_eq_erase (name : String) :
    (set.remove name).1.names = set.names.erase name := by
  rw [names_remove, set.nodup.erase_eq_filter]

/-- A change reports whether it changed the number of names. -/
theorem apply_snd : (set.apply change).2 = ((set.apply change).1.size != set.size) := by
  cases change with
  | insert name =>
    rw [apply, insert_snd, size, size, names_insert]
    by_cases h : name ∈ set.names <;> simp [contains, h]
  | remove name =>
    rw [apply, remove_snd, size, size, names_remove_eq_erase]
    by_cases h : name ∈ set.names
    · have hlength := List.length_erase_add_one h
      have hne : (set.names.erase name).length ≠ set.names.length := by omega
      rw [(contains_eq_true_iff set name).2 h, bne_iff_ne.2 hne]
    · simp [contains, h, List.erase_of_not_mem h]

end Reports

/-- A set of names follows its changes. After any run from any names, repeated or not, no name
stands twice, and a name is there exactly if its last change put it in or, with no change of it, it
was there at the start. A name is put in at the end exactly if it is absent, and taken out exactly
if it is present; that is what is reported, also told by the number of names, and otherwise the list
stays as it is. There are as many names as are present. They stand in the order in which they last
arrived, those of the start by their first places. The changes of one name leave the list of all
others as it would be without them. -/
theorem names_stand_in_order_of_arrival (start : List String) (changes : List Change) :
    let set := (ofList start).after changes
    set.names.Nodup
    ∧ (∀ name, set.contains name = isPresent start changes name)
    ∧ (∀ name, (set.insert name).2 = !isPresent start changes name
      ∧ (set.insert name).1.names
        = if isPresent start changes name then set.names else set.names ++ [name])
    ∧ (∀ name, (set.remove name).2 = isPresent start changes name
      ∧ (set.remove name).1.names
        = if isPresent start changes name then set.names.erase name else set.names)
    ∧ (∀ change, (set.apply change).2 = ((set.apply change).1.size != set.size))
    ∧ {name | isPresent start changes name}.encard = set.size
    ∧ (set.names.Pairwise fun a b =>
      lastArrival start changes a < lastArrival start changes b)
    ∧ ∀ name, set.names.filter (· != name)
      = ((ofList start).after (changes.filter (·.name != name))).names.filter (· != name) := by
  intro set
  have hmem : ∀ name, name ∈ set.names ↔ isPresent start changes name :=
    mem_names_after start changes
  have horder := pairwise_lastArrival start changes
  refine ⟨?_, contains_after start changes, ?_, ?_, apply_snd set, encard_present start changes,
    horder, fun name => filter_names_after changes⟩
  · -- A name that stands twice would have arrived before itself.
    apply horder.imp
    rintro a b hlt rfl
    exact lt_irrefl _ hlt
  · intro name
    rw [insert_snd, contains_after, names_insert]
    simp only [hmem, and_self]
  · intro name
    rw [remove_snd, contains_after, names_remove_eq_erase]
    refine ⟨rfl, ?_⟩
    split
    next => rfl
    next habsent => exact List.erase_of_not_mem (mt (hmem name).1 habsent)

/-- A name that was taken out comes back behind all others. -/
example : ((ofList ["a", "b", "a"]).after
      [.insert "c", .insert "b", .remove "a", .insert "a"]).names = ["b", "c", "a"] := by
  decide

end SchemaTypes.RequiredSet
