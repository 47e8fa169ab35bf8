import Mathlib.Data.List.Perm.Basic
import Mathlib.Data.String.Basic
import SchemaTypes.Assoc
import SchemaTypes.Json.Reader

/-! JSON values with the members of objects in any order. Reading gives back the value, with its
members sorted. -/
namespace SchemaTypes

mutual
/-- The members of an object may be written in any order. -/
inductive Json.Written : Json → Item → Prop
  | null : Json.Written .null .null
  | bool (value : Bool) : Json.Written (.bool value) (.bool value)
  | number (value : Number) : Json.Written (.number value) (.number value)
  | string (value : String) : Json.Written (.string value) (.text value)
  | array {values : List Json} {items : List Item} (h : Json.WrittenAll values items) :
    Json.Written (.array values) (.list items)
  | object {members : List (String × Json)} {sorted entries : List (Item × Item)}
      (names : (Assoc.keys members).Pairwise (· < ·)) (h : Json.WrittenMembers members sorted)
      (order : entries.Perm sorted) : Json.Written (.object members) (.table entries)

inductive Json.WrittenAll : List Json → List Item → Prop
  | nil : Json.WrittenAll [] []
  | cons {value : Json} {item : Item} {values : List Json} {items : List Item}
      (head : Json.Written value item) (tail : Json.WrittenAll values items) :
    Json.WrittenAll (value :: values) (item :: items)

inductive Json.WrittenMembers : List (String × Json) → List (Item × Item) → Prop
  | nil : Json.WrittenMembers [] []
  | cons {name : String} {value : Json} {item : Item} {members : List (String × Json)}
      {entries : List (Item × Item)} (head : Json.Written value item)
      (tail : Json.WrittenMembers members entries) :
    Json.WrittenMembers ((name, value) :: members) ((.text name, item) :: entries)
end

namespace Json

theorem putSorted_perm {name : String} {members : List (String × Json)}
    (h : name ∉ Assoc.keys members) (value : Json) :
    (putSorted name value members).Perm ((name, value) :: members) := by
  induction members with
  | nil => exact .refl _
  | cons member rest ih =>
    obtain ⟨other, old⟩ := member
    have hne : name ≠ other := fun heq => h (List.mem_cons.2 (.inl heq))
    have hrest : name ∉ Assoc.keys rest := fun hm => h (List.mem_cons_of_mem _ hm)
    unfold putSorted
    rw [if_neg hne]
    split
    · exact .refl _
    · exact ((ih hrest).cons _).trans (.swap _ _ _)

theorem pairwise_putSorted {name : String} {members : List (String × Json)}
    (h : name ∉ Assoc.keys members) (value : Json)
    (sorted : members.Pairwise fun a b => a.1 < b.1) :
    (putSorted name value members).Pairwise fun a b => a.1 < b.1 := by
  induction members with
  | nil => exact List.pairwise_singleton _ _
  | cons member rest ih =>
    obtain ⟨other, old⟩ := member
    obtain ⟨hfirst, hrest⟩ := List.pairwise_cons.1 sorted
    have hne : name ≠ other := fun heq => h (List.mem_cons.2 (.inl heq))
    have hnew : name ∉ Assoc.keys rest := fun hm => h (List.mem_cons_of_mem _ hm)
    unfold putSorted
    rw [if_neg hne]
    split
    next hlt =>
      refine List.pairwise_cons.2 ⟨fun entry he => ?_, sorted⟩
      rcases List.mem_cons.1 he with rfl | he
      · exact hlt
      · exact lt_trans hlt (hfirst entry he)
    next hnot =>
      have hlt : other < name := lt_of_le_of_ne (not_lt.1 hnot) (Ne.symm hne)
      refine List.pairwise_cons.2 ⟨fun entry he => ?_, ih hnew hrest⟩
      rcases List.mem_cons.1 ((putSorted_perm hnew value).mem_iff.1 he) with rfl | he
      · exact hlt
      · exact hfirst entry he

/-- Members in any order make the object with its members sorted. -/
theorem ofMembers_of_perm {members written : List (String × Json)}
    (sorted : (Assoc.keys members).Pairwise (· < ·)) (order : written.Perm members) :
    ofMembers written = .object members := by
  have hfold (acc rest : List (String × Json)) (names : (Assoc.keys (acc ++ rest)).Nodup)
      (hacc : acc.Pairwise fun a b => a.1 < b.1) :
      let result := rest.foldl (fun acc member => putSorted member.1 member.2 acc) acc
      result.Perm (acc ++ rest) ∧ result.Pairwise fun a b => a.1 < b.1 := by
    induction rest generalizing acc with
    | nil => exact ⟨by simp, hacc⟩
    | cons member rest ih =>
      have hsplit : (Assoc.keys (member :: acc ++ rest)).Nodup := by
        have hperm : (acc ++ member :: rest).Perm (member :: acc ++ rest) := List.perm_middle
        exact (hperm.map Prod.fst).nodup_iff.1 names
      have hother : member.1 ∉ Assoc.keys (acc ++ rest) := (List.nodup_cons.1 hsplit).1
      rw [Assoc.keys, List.map_append, List.mem_append, not_or] at hother
      have hnew : member.1 ∉ Assoc.keys acc := hother.1
      have hput := putSorted_perm hnew member.2
      have hnames : (Assoc.keys (putSorted member.1 member.2 acc ++ rest)).Nodup :=
        ((hput.append_right rest).map Prod.fst).nodup_iff.2 hsplit
      obtain ⟨hperm, hsorted⟩ := ih _ hnames (pairwise_putSorted hnew member.2 hacc)
      refine ⟨hperm.trans ((hput.append_right rest).trans ?_), hsorted⟩
      exact List.perm_middle.symm
  have hnodup : (Assoc.keys members).Nodup := sorted.imp fun h => ne_of_lt h
  have hwritten : (Assoc.keys written).Nodup := (order.map Prod.fst).nodup_iff.2 hnodup
  obtain ⟨hperm, hsorted⟩ := hfold [] written hwritten List.Pairwise.nil
  have hmembers : members.Pairwise fun a b => a.1 < b.1 := List.pairwise_map.1 sorted
  rw [ofMembers]
  refine congrArg Json.object ?_
  refine List.Perm.eq_of_pairwise ?_ hsorted hmembers (hperm.trans order)
  intro a b _ _ hab hba
  exact absurd (lt_trans hab hba) (lt_irrefl a.1)

theorem jsonEntries?_of_forall₂ {entries : List (Item × Item)} {members : List (String × Json)}
    (h : List.Forall₂ (fun entry member => entry.1.string? = some member.1
      ∧ entry.2.json? = some member.2) entries members) :
    Item.jsonEntries? entries = some members := by
  induction h with
  | nil => rfl
  | cons head _ ih =>
    rw [Item.jsonEntries?, head.1, head.2, ih]
    rfl

mutual
/-- A written value is read back. -/
theorem json?_of_written : ∀ {value : Json} {item : Item}, Written value item →
    item.json? = some value
  | _, _, .null => rfl
  | _, _, .bool _ => rfl
  | _, _, .number _ => rfl
  | _, _, .string _ => rfl
  | _, _, .array h => by rw [Item.json?, jsonList?_of_written h, Option.map_some]
  | _, _, .object names h order => by
    obtain ⟨read, hread, hperm⟩ := List.perm_comp_forall₂ order (entries_of_written h)
    rw [Item.json?, jsonEntries?_of_forall₂ hread, Option.map_some, ofMembers_of_perm names hperm]

theorem jsonList?_of_written : ∀ {values : List Json} {items : List Item},
    WrittenAll values items → Item.jsonList? items = some values
  | _, _, .nil => rfl
  | _, _, .cons head tail => by
    rw [Item.jsonList?, json?_of_written head, jsonList?_of_written tail]
    rfl

theorem entries_of_written : ∀ {members : List (String × Json)} {entries : List (Item × Item)},
    WrittenMembers members entries → List.Forall₂ (fun entry member =>
      entry.1.string? = some member.1 ∧ entry.2.json? = some member.2) entries members
  | _, _, .nil => .nil
  | _, _, .cons head tail => .cons ⟨rfl, json?_of_written head⟩ (entries_of_written tail)
end

end Json

end SchemaTypes
