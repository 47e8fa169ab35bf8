import Mathlib.Data.List.Basic
import SchemaTypes.Disk

/-! The parts of a path and of the path above it, and the places that they name. -/
namespace SchemaTypes

namespace Path

/-! ### The parts -/

theorem slash_notMem_of_mem_split {path part : String} (h : part ∈ split path) :
    '/' ∉ part.toList := by
  obtain ⟨cs, hcs, rfl⟩ := List.mem_map.1 h
  rw [String.toList_ofList]
  have hfree (text : List Char) : ∀ piece ∈ text.splitOn '/', '/' ∉ piece := by
    induction text with
    | nil => simp
    | cons c text ih =>
      rw [List.splitOn_cons_eq_if_modifyHead]
      split
      · exact List.forall_mem_cons.2 ⟨List.not_mem_nil, ih⟩
      · rename_i hc
        obtain ⟨piece, pieces, hpieces⟩ := List.exists_cons_of_ne_nil (List.splitOn_ne_nil '/' text)
        rw [hpieces] at ih ⊢
        obtain ⟨hpiece, hrest⟩ := List.forall_mem_cons.1 ih
        refine List.forall_mem_cons.2 ⟨?_, hrest⟩
        simp only [beq_iff_eq] at hc
        simp [hpiece, Ne.symm hc]
  exact hfree path.toList cs hcs

theorem split_intercalate {parts : List String} (h : ∀ part ∈ parts, '/' ∉ part.toList)
    (hne : parts ≠ []) : split ("/".intercalate parts) = parts := by
  have hsplit : (['/'].intercalate (parts.map String.toList)).splitOn '/'
      = parts.map String.toList := by
    apply List.splitOn_intercalate '/' (List.forall_mem_map.2 h)
    simpa using hne
  have hslash : "/".toList = ['/'] := rfl
  rw [split, String.toList_intercalate, hslash, hsplit, List.map_map]
  simp [Function.comp_def]

/-- What stands in front of a first slash is a part too, with no characters. -/
theorem split_of_cons {path : String} {cs : List Char} (h : path.toList = '/' :: cs) :
    split path = "" :: split (String.ofList cs) := by
  have hcs : ('/' :: cs).splitOn '/' = [] :: cs.splitOn '/' :=
    List.splitOn_append_cons_self_of_not_mem List.not_mem_nil cs
  rw [split, split, h, hcs, String.toList_ofList]
  rfl

theorem isAbsolute_iff {path : String} : isAbsolute path ↔ path.toList.head? = some '/' := by
  have hslash : "/".toList = ['/'] := rfl
  rw [isAbsolute, String.startsWith_string_iff, hslash]
  cases path.toList with
  | nil => simp
  | cons c cs => simp [List.cons_prefix_cons, eq_comm]

theorem toList_slash_append (text : String) : ("/" ++ text).toList = '/' :: text.toList := by
  rw [String.toList_append]
  rfl

theorem isAbsolute_slash_append (text : String) : isAbsolute ("/" ++ text) := by
  rw [isAbsolute_iff, toList_slash_append]
  rfl

/-- Parts that are as few as they can be: each is a name or `..`, and `.` stands in front only. -/
structure Reduced (parts : List String) : Prop where
  names : ∀ part ∈ parts, part ≠ "" ∧ '/' ∉ part.toList
  dot : ∀ part ∈ parts.tail, part ≠ "."

theorem Reduced.dropLast {parts : List String} (h : Reduced parts) : Reduced parts.dropLast := by
  constructor
  · intro part hp
    exact h.names part (List.dropLast_subset parts hp)
  · intro part hp
    rw [List.tail_dropLast] at hp
    exact h.dot part (List.dropLast_subset parts.tail hp)

theorem filter_eq_self_of_ne {parts : List String} (h : ∀ part ∈ parts, part ≠ "" ∧ part ≠ ".") :
    parts.filter (fun part => part != "" && part != ".") = parts := by
  rw [List.filter_eq_self]
  intro part hp
  simpa using h part hp

theorem components_of_isAbsolute {path : String} (h : isAbsolute path) :
    components path = (split path).filter fun part => part != "" && part != "." := by
  obtain ⟨cs, hcs⟩ := List.head?_eq_some_iff.1 (isAbsolute_iff.1 h)
  rw [components, split_of_cons hcs]
  split
  · rename_i heq
    exact absurd (List.cons.inj heq).1 (by decide)
  · rfl

theorem dot_notMem_components {path : String} (h : isAbsolute path) : "." ∉ components path := by
  rw [components_of_isAbsolute h]
  simp

theorem reduced_components (path : String) : Reduced (components path) := by
  have hslash : ∀ part ∈ split path, '/' ∉ part.toList := fun part => slash_notMem_of_mem_split
  unfold components
  split
  · rename_i rest hparts
    rw [hparts] at hslash
    obtain ⟨hdot, hrest⟩ := List.forall_mem_cons.1 hslash
    constructor
    · refine List.forall_mem_cons.2 ⟨⟨by decide, hdot⟩, fun part hp => ?_⟩
      simp only [List.mem_filter, Bool.and_eq_true, bne_iff_ne] at hp
      exact ⟨hp.2.1, hrest part hp.1⟩
    · intro part hp
      simp only [List.tail_cons, List.mem_filter, Bool.and_eq_true, bne_iff_ne] at hp
      exact hp.2.2
  · constructor
    · intro part hp
      simp only [List.mem_filter, Bool.and_eq_true, bne_iff_ne] at hp
      exact ⟨hp.2.1, hslash part hp.1⟩
    · intro part hp
      have hmem := List.mem_of_mem_tail hp
      simp only [List.mem_filter, Bool.and_eq_true, bne_iff_ne] at hmem
      exact hmem.2.2

/-- Reduced parts are the components of the path that they make. -/
theorem components_intercalate {parts : List String} (h : Reduced parts) :
    components ("/".intercalate parts) = parts := by
  rcases parts with _ | ⟨first, rest⟩
  · decide
  have hsplit : split ("/".intercalate (first :: rest)) = first :: rest :=
    split_intercalate (fun part hp => (h.names part hp).2) (List.cons_ne_nil first rest)
  have hrest : ∀ part ∈ rest, part ≠ "" ∧ part ≠ "." := fun part hp =>
    ⟨(h.names part (List.mem_cons_of_mem first hp)).1, h.dot part hp⟩
  rw [components, hsplit]
  split
  · rename_i heq
    obtain ⟨rfl, rfl⟩ := List.cons.inj heq
    rw [filter_eq_self_of_ne hrest]
  · rename_i hdot
    apply filter_eq_self_of_ne
    refine List.forall_mem_cons.2 ⟨⟨(h.names first List.mem_cons_self).1, ?_⟩, hrest⟩
    rintro rfl
    exact hdot rest rfl

theorem components_slash_append {parts : List String} (h : Reduced parts) (hdot : "." ∉ parts) :
    components ("/" ++ "/".intercalate parts) = parts := by
  rw [components_of_isAbsolute (isAbsolute_slash_append _),
    split_of_cons (toList_slash_append _), String.ofList_toList]
  rcases parts with _ | ⟨first, rest⟩
  · decide
  rw [split_intercalate (fun part hp => (h.names part hp).2) (List.cons_ne_nil first rest),
    List.filter_cons_of_neg (by decide)]
  apply filter_eq_self_of_ne
  intro part hp
  refine ⟨(h.names part hp).1, ?_⟩
  rintro rfl
  exact hdot hp

theorem isAbsolute_intercalate {parts : List String} (h : Reduced parts) :
    isAbsolute ("/".intercalate parts) = false := by
  rw [Bool.eq_false_iff]
  intro habsolute
  obtain ⟨cs, hcs⟩ := List.head?_eq_some_iff.1 (isAbsolute_iff.1 habsolute)
  rcases parts with _ | ⟨first, rest⟩
  · cases hcs
  have hsplit : split ("/".intercalate (first :: rest)) = first :: rest :=
    split_intercalate (fun part hp => (h.names part hp).2) (List.cons_ne_nil first rest)
  rw [split_of_cons hcs] at hsplit
  have hfirst : "" = first := (List.cons.inj hsplit).1
  exact (h.names first List.mem_cons_self).1 hfirst.symm

/-- The path above has all components but the last one, and starts where the path does. -/
theorem components_parent {path parent : String} (h : parent? path = some parent) :
    components path ≠ [] ∧ components parent = (components path).dropLast
    ∧ isAbsolute parent = isAbsolute path := by
  have hreduced := (reduced_components path).dropLast
  rw [parent?] at h
  split at h
  · cases h
  rename_i last front hfront
  have hparts : components path = front.reverse ++ [last] := by
    rw [← List.reverse_reverse (components path), hfront, List.reverse_cons]
  have hdrop : (components path).dropLast = front.reverse := by
    rw [hparts, List.dropLast_concat]
  have hne : components path ≠ [] := by
    rw [hparts]
    simp
  rw [hdrop] at hreduced ⊢
  refine ⟨hne, ?_⟩
  simp only [Option.some.injEq] at h
  by_cases habsolute : isAbsolute path
  · rw [if_pos habsolute] at h
    have hdot : "." ∉ front.reverse := fun hmem =>
      dot_notMem_components habsolute (List.dropLast_subset _ (hdrop ▸ hmem))
    subst h
    exact ⟨components_slash_append hreduced hdot,
      (isAbsolute_slash_append _).trans habsolute.symm⟩
  · rw [if_neg habsolute] at h
    subst h
    exact ⟨components_intercalate hreduced,
      (isAbsolute_intercalate hreduced).trans (Bool.eq_false_iff.2 habsolute).symm⟩

end Path

namespace Disk

/-! ### The places -/

/-- The places that parts name one after the other, from a place on. -/
def placesAlong : List String → List String → List (List String)
  | _, [] => []
  | place, part :: rest =>
    if part = "" ∨ part = "." then placesAlong place rest
    else if part = ".." then placesAlong place.dropLast rest
    else (place ++ [part]) :: placesAlong (place ++ [part]) rest

/-- The places that a path names on its way, seen from `directory`. -/
def places (directory path : String) : List (List String) :=
  placesAlong (start directory path) (Path.split path)

theorem placesAlong_skip {part : String} (h : part = "" ∨ part = ".") (place rest : List String) :
    placesAlong place (part :: rest) = placesAlong place rest := if_pos h

theorem placesAlong_up (place rest : List String) :
    placesAlong place (".." :: rest) = placesAlong place.dropLast rest := by
  simp [placesAlong]

theorem placesAlong_name {part : String} (h : ¬(part = "" ∨ part = ".")) (hup : part ≠ "..")
    (place rest : List String) :
    placesAlong place (part :: rest) = (place ++ [part]) :: placesAlong (place ++ [part]) rest := by
  rw [placesAlong, if_neg h, if_neg hup]

theorem placesAlong_filter (place parts : List String) :
    placesAlong place (parts.filter fun part => part != "" && part != ".")
      = placesAlong place parts := by
  induction parts generalizing place with
  | nil => rfl
  | cons part rest ih =>
    by_cases hskip : part = "" ∨ part = "."
    · have hfilter : (part != "" && part != ".") = false := by
        rcases hskip with rfl | rfl <;> rfl
      rw [List.filter_cons_of_neg (by simp [hfilter]), placesAlong_skip hskip, ih]
    · have hfilter : (part != "" && part != ".") = true := by
        simpa [not_or] using hskip
      rw [List.filter_cons_of_pos (by simpa using hfilter), placesAlong, placesAlong, ih, ih, ih]

theorem placesAlong_components (place : List String) (path : String) :
    placesAlong place (Path.components path) = placesAlong place (Path.split path) := by
  unfold Path.components
  split
  · rename_i rest hparts
    rw [hparts, placesAlong_skip (.inr rfl), placesAlong_skip (.inr rfl), placesAlong_filter]
  · exact placesAlong_filter place (Path.split path)

theorem isPrefix_placesAlong (place front rest : List String) :
    placesAlong place front <+: placesAlong place (front ++ rest) := by
  induction front generalizing place with
  | nil => exact List.nil_prefix
  | cons part front ih =>
    rw [List.cons_append, placesAlong, placesAlong]
    split_ifs
    · exact ih place
    · exact ih place.dropLast
    · exact List.cons_prefix_cons.2 ⟨rfl, ih (place ++ [part])⟩

/-- A path goes through the places of the path above it first. -/
theorem isPrefix_places_parent {path parent : String} (h : Path.parent? path = some parent)
    (directory : String) : places directory parent <+: places directory path := by
  obtain ⟨hne, hcomponents, habsolute⟩ := Path.components_parent h
  have hstart : start directory parent = start directory path := by
    rw [start, start, habsolute]
  rw [places, places, hstart, ← placesAlong_components, ← placesAlong_components, hcomponents]
  have hconcat := List.dropLast_concat_getLast hne
  conv_rhs => rw [← hconcat]
  exact isPrefix_placesAlong _ _ _

end Disk
end SchemaTypes
