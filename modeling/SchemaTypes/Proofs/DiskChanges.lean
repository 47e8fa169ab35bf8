import Mathlib.Data.List.TakeWhile
import SchemaTypes.Proofs.PathPlaces

/-! What making directories and writing a file change on a disk, and what they leave. -/
namespace SchemaTypes.Disk

variable {disk other : Disk} {directory path : String}

theorem find?_put {place : List String} (hne : place ≠ []) (disk : Disk) (entry : Entry)
    (found : List String) :
    (disk.put place entry).find? found
      = if found = place then some entry else disk.find? found := by
  have hfilter (entries : List (List String × Entry)) (h : found ≠ place) :
      (entries.filter (·.1 != place)).lookup found = entries.lookup found := by
    induction entries with
    | nil => rfl
    | cons first rest ih =>
      obtain ⟨key, value⟩ := first
      by_cases hkey : key = place
      · have hfound : (found == key) = false := by simpa [hkey] using h
        rw [List.filter_cons_of_neg (by simp [hkey]), ih, List.lookup_cons, hfound]
      · rw [List.filter_cons_of_pos (by simpa using hkey), List.lookup_cons, List.lookup_cons, ih]
  by_cases h : found = place
  · subst h
    simp [find?, put, hne]
  · have hhead : (found == place) = false := by simpa using h
    simp only [find?, put, List.lookup_cons, hhead, hfilter disk.entries h, if_neg h]

/-! ### Ways through directories -/

/-- The parts lead from one place to the other, through directories only. -/
inductive Leads (disk : Disk) : List String → List String → List String → Prop
  | here (place : List String) : Leads disk place [] place
  | skip {place found rest : List String} {part : String} (h : part = "" ∨ part = ".")
      (more : Leads disk place rest found) : Leads disk place (part :: rest) found
  | up {place found rest : List String} (more : Leads disk place.dropLast rest found) :
    Leads disk place (".." :: rest) found
  | enter {place found rest : List String} {part : String} (h : ¬(part = "" ∨ part = "."))
      (hup : part ≠ "..") (size : part.utf8ByteSize ≤ maxNameSize)
      (there : disk.find? (place ++ [part]) = some .directory)
      (more : Leads disk (place ++ [part]) rest found) : Leads disk place (part :: rest) found

theorem walk_eq_directory_iff {place parts found : List String} :
    disk.walk place parts = .ok (found, .directory) ↔ disk.Leads place parts found := by
  constructor
  · intro h
    induction parts generalizing place with
    | nil =>
      cases h
      exact .here _
    | cons part rest ih =>
      rw [walk] at h
      split at h
      · rename_i hskip
        exact .skip hskip (ih h)
      rename_i hskip
      split at h
      · rename_i hup
        subst hup
        exact .up (ih h)
      rename_i hup
      split at h
      · cases h
      rename_i hsize
      split at h
      · cases h
      · rename_i hfind
        exact .enter hskip hup (Nat.le_of_not_lt hsize) hfind (ih h)
      · split at h <;> cases h
  · intro h
    induction h with
    | here place => rfl
    | skip h _ ih => rw [walk, if_pos h, ih]
    | up _ ih =>
      rw [walk, if_neg (by decide), if_pos rfl, ih]
    | enter h hup size there _ ih =>
      rw [walk, if_neg h, if_neg hup, if_neg (Nat.not_lt.2 size), there]
      exact ih

namespace Leads

variable {place found parts : List String}

theorem find? (h : disk.Leads place parts found) :
    ∀ passed ∈ placesAlong place parts, disk.find? passed = some .directory := by
  induction h with
  | here place => exact List.forall_mem_nil _
  | skip h _ ih =>
    rw [placesAlong_skip h]
    exact ih
  | up _ ih =>
    rw [placesAlong_up]
    exact ih
  | enter h hup _ there _ ih =>
    rw [placesAlong_name h hup]
    exact List.forall_mem_cons.2 ⟨there, ih⟩

/-- The way is there on every disk that has the directories it goes through. -/
theorem of_find? (h : disk.Leads place parts found)
    (hfind : ∀ passed ∈ placesAlong place parts, other.find? passed = some .directory) :
    other.Leads place parts found := by
  induction h with
  | here place => exact .here place
  | skip h _ ih =>
    rw [placesAlong_skip h] at hfind
    exact .skip h (ih hfind)
  | up _ ih =>
    rw [placesAlong_up] at hfind
    exact .up (ih hfind)
  | enter h hup size _ _ ih =>
    rw [placesAlong_name h hup] at hfind
    obtain ⟨there, hmore⟩ := List.forall_mem_cons.1 hfind
    exact .enter h hup size there (ih hmore)

theorem placesAlong_append (h : disk.Leads place parts found) (rest : List String) :
    placesAlong place (parts ++ rest) = placesAlong place parts ++ placesAlong found rest := by
  induction h with
  | here place => rfl
  | skip h _ ih => rw [List.cons_append, placesAlong_skip h, placesAlong_skip h, ih]
  | up _ ih => rw [List.cons_append, placesAlong_up, placesAlong_up, ih]
  | enter h hup _ _ _ ih =>
    rw [List.cons_append, placesAlong_name h hup, placesAlong_name h hup, ih, List.cons_append]

theorem walk_append (h : disk.Leads place parts found) (rest : List String) :
    disk.walk place (parts ++ rest) = disk.walk found rest := by
  induction h with
  | here place => rfl
  | skip h _ ih => rw [List.cons_append, walk, if_pos h, ih]
  | up _ ih => rw [List.cons_append, walk, if_neg (by decide), if_pos rfl, ih]
  | enter h hup size there _ ih =>
    rw [List.cons_append, walk, if_neg h, if_neg hup, if_neg (Nat.not_lt.2 size), there]
    exact ih

end Leads

/-! ### Names in directories -/

/-- The path names an entry of a directory that its front leads to. Only slashes are behind the
name. -/
structure Names (disk : Disk) (directory path : String) (front above : List String) (name : String)
    (blanks : List String) : Prop where
  fault : pathFault? path = none
  parts : Path.split path = front ++ name :: blanks
  blank : ∀ part ∈ blanks, part = ""
  front : disk.Leads (start directory path) front above
  named : ¬(name = "" ∨ name = ".") ∧ name ≠ ".."
  size : name.utf8ByteSize ≤ maxNameSize

/-- The last part with characters, and the parts behind it. -/
theorem exists_blanks {parts front : List String} {name : String}
    (h : parts.reverse.dropWhile (· == "") = name :: front) :
    name ≠ "" ∧ ∃ blanks, parts = front.reverse ++ name :: blanks ∧ ∀ part ∈ blanks, part = "" := by
  have hhead := List.head?_dropWhile_not (· == "") parts.reverse
  rw [h] at hhead
  have hsplit : parts.reverse.takeWhile (· == "") ++ name :: front = parts.reverse := by
    rw [← h, List.takeWhile_append_dropWhile]
  refine ⟨by simpa using hhead, (parts.reverse.takeWhile (· == "")).reverse, ?_, ?_⟩
  · rw [← List.reverse_inj]
    simpa using hsplit.symm
  · intro part hp
    simpa using List.mem_takeWhile_imp (List.mem_reverse.1 hp)

theorem names_of_spot {place : List String} {slash : Bool}
    (h : disk.spot directory path = .ok (.named place slash)) :
    ∃ front above name blanks, disk.Names directory path front above name blanks
      ∧ place = above ++ [name] ∧ (slash = false → blanks = []) := by
  simp only [spot, List.reverse_reverse] at h
  split at h
  · cases h
  · cases h
  rename_i name front hfault hcore
  split at h
  · cases h
  · cases h
  rename_i above hwalk
  split at h
  · cases h
  rename_i hdots
  split at h
  · cases h
  rename_i hsize
  injection h with h
  injection h with hplace hslash
  obtain ⟨hname, blanks, hparts, hblank⟩ := exists_blanks hcore
  obtain ⟨hdot, hup⟩ := not_or.1 hdots
  refine ⟨front.reverse, above, name, blanks, ⟨hfault, hparts, hblank,
    walk_eq_directory_iff.1 hwalk, ⟨not_or.2 ⟨hname, hdot⟩, hup⟩, Nat.le_of_not_lt hsize⟩,
    hplace.symm, fun hs => ?_⟩
  -- Without a slash behind the name nothing was cut off from the parts.
  have hlength := congrArg List.length hparts
  rw [hcore, hs, bne_eq_false_iff_eq] at hslash
  apply List.eq_nil_of_length_eq_zero
  simp only [List.length_append, List.length_reverse, List.length_cons] at hlength hslash
  omega

theorem placesAlong_of_blank {parts : List String} (h : ∀ part ∈ parts, part = "")
    (place : List String) : placesAlong place parts = [] := by
  induction parts with
  | nil => rfl
  | cons part rest ih =>
    obtain ⟨hpart, hrest⟩ := List.forall_mem_cons.1 h
    rw [placesAlong_skip (.inl hpart), ih hrest]

namespace Names

variable {front above blanks : List String} {name : String}

/-- The places on the way to the directory, and the named one. -/
theorem places_eq (h : disk.Names directory path front above name blanks) :
    places directory path = placesAlong (start directory path) front ++ [above ++ [name]] := by
  rw [places, h.parts, h.front.placesAlong_append, placesAlong_name h.named.1 h.named.2,
    placesAlong_of_blank h.blank]

theorem find?_front (h : disk.Names directory path front above name blanks) :
    ∀ place ∈ placesAlong (start directory path) front, disk.find? place = some .directory :=
  h.front.find?

end Names

/-! ### Directories that are made -/

/-- What making directories at some places does to a disk: they are there, all else is as it was,
and no file has gone for them. -/
structure Makes (places : List (List String)) (disk other : Disk) : Prop where
  there : ∀ place ∈ places, other.find? place = some .directory
  elsewhere : ∀ place ∉ places, other.find? place = disk.find? place
  free : ∀ place ∈ places, disk.find? place = none ∨ disk.find? place = some .directory

namespace Makes

variable {places more : List (List String)} {last : Disk}

theorem nil (disk : Disk) : Makes [] disk disk :=
  ⟨List.forall_mem_nil _, fun _ _ => rfl, List.forall_mem_nil _⟩

/-- Making some directories, and then those and others. -/
theorem trans (h : Makes places disk other) (hmore : Makes more other last)
    (hsub : places ⊆ more) : Makes more disk last := by
  constructor
  · exact hmore.there
  · intro place hp
    rw [hmore.elsewhere place hp, h.elsewhere place fun hmem => hp (hsub hmem)]
  · intro place hp
    by_cases hmem : place ∈ places
    · exact h.free place hmem
    · rw [← h.elsewhere place hmem]
      exact hmore.free place hp

end Makes

theorem makes_of_makeDirectory (h : disk.makeDirectory directory path = .ok other) :
    Makes (places directory path) disk other := by
  rw [makeDirectory] at h
  split at h
  · cases h
  · cases h
  rename_i place slash hspot
  split at h
  · cases h
  rename_i hfind
  injection h with h
  subst h
  obtain ⟨front, above, name, blanks, hnames, rfl, -⟩ := names_of_spot hspot
  have hput := find?_put (List.concat_ne_nil name above) disk .directory
  have hfront := hnames.find?_front
  rw [hnames.places_eq]
  constructor
  · intro found hf
    rw [hput]
    split
    · rfl
    · rename_i hne
      rcases List.mem_append.1 hf with hmem | hmem
      · exact hfront found hmem
      · exact absurd (List.mem_singleton.1 hmem) hne
  · intro found hf
    rw [hput, if_neg]
    rintro rfl
    exact hf (List.mem_append_right _ List.mem_cons_self)
  · intro found hf
    rcases List.mem_append.1 hf with hmem | hmem
    · exact .inr (hfront found hmem)
    · rw [List.mem_singleton.1 hmem]
      exact .inl hfind

/-- Whatever the result is, only directories on the way of the path are made. -/
theorem makes_of_makeDirectories {steps : Nat} {result : Except SystemError Unit}
    (h : disk.makeDirectories directory steps path = (result, other)) :
    ∃ made ⊆ places directory path, Makes made disk other := by
  have hnone (path : String) (disk : Disk) :
      ∃ made ⊆ places directory path, Makes made disk disk :=
    ⟨[], List.nil_subset _, .nil disk⟩
  induction steps generalizing path disk other result with
  | zero =>
    cases h
    exact hnone path disk
  | succ steps ih =>
    rw [makeDirectories] at h
    split at h
    · cases h
      exact hnone path disk
    rename_i parent hparent
    have hparents := (isPrefix_places_parent hparent directory).subset
    split at h
    · rename_i made hmade
      cases h
      exact ⟨_, List.Subset.refl _, makes_of_makeDirectory hmade⟩
    · split at h
      · rename_i middle habove
        cases h
        obtain ⟨made, hsub, hmakes⟩ := ih habove
        exact ⟨made, List.Subset.trans hsub hparents, hmakes⟩
      rename_i middle habove
      obtain ⟨made, hsub, hmakes⟩ := ih habove
      have hsub := List.Subset.trans hsub hparents
      split at h
      · rename_i last hmade
        cases h
        exact ⟨_, List.Subset.refl _, hmakes.trans (makes_of_makeDirectory hmade) hsub⟩
      · cases h
        exact ⟨made, hsub, hmakes⟩
    · cases h
      exact hnone path disk

/-! ### A written file -/

/-- Writing puts the file at the last of the places that the path names, below directories that are
there, and reading gives its content back. -/
theorem put_of_write {content : ByteArray}
    (h : disk.write directory path content = .ok other) :
    ∃ parents file, places directory path = parents ++ [file]
      ∧ (∀ place ∈ parents, disk.find? place = some .directory)
      ∧ disk.find? file ≠ some .directory
      ∧ (∀ place, other.find? place
        = if place = file then some (.file content) else disk.find? place)
      ∧ other.read directory path = .ok content := by
  rw [write] at h
  split at h
  · cases h
  · cases h
  rename_i file slash hspot
  split at h
  · cases h
  · cases h
  rename_i hslash hfind
  injection h with h
  subst h
  obtain ⟨front, above, name, blanks, hnames, rfl, hblanks⟩ := names_of_spot hspot
  obtain rfl := hblanks (by simpa using hslash)
  have hput := find?_put (List.concat_ne_nil name above) disk (.file content)
  refine ⟨_, _, hnames.places_eq, hnames.find?_front, hfind, hput, ?_⟩
  have hfront := hnames.front.of_find? fun place hp => by
    have hne : place ≠ above ++ [name] := fun heq =>
      hfind (heq ▸ hnames.find?_front place hp)
    rw [hput, if_neg hne, hnames.find?_front place hp]
  have hwalk : (disk.put (above ++ [name]) (.file content)).walk above [name]
      = .ok (above ++ [name], .file content) := by
    rw [walk, if_neg hnames.named.1, if_neg hnames.named.2, if_neg (Nat.not_lt.2 hnames.size), hput,
      if_pos rfl]
    rfl
  rw [read, lookup, hnames.fault, hnames.parts]
  dsimp only
  rw [hfront.walk_append, hwalk]

end SchemaTypes.Disk
