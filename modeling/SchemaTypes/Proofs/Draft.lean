import Mathlib.Data.List.Basic
import SchemaTypes.Proofs.Rebuild

/-! Documents that are being edited. A draft is a schema whose keywords may still change, a schema
that stays as it is written, or text that no schema can say. -/
namespace SchemaTypes

/-- The texts that go with named values, by name. -/
def describedBy {α : Type} (description : α → Option String)
    (properties : Option (List (String × α))) : List (String × String) :=
  Assoc.ofList ((properties.getD []).filterMap fun entry =>
    (description entry.2).map (entry.1, ·))

theorem describedBy_map {α β : Type} {description : α → Option String} {other : β → Option String}
    {f : α → β} {properties : Option (List (String × α))}
    (h : ∀ entry ∈ properties.getD [], other (f entry.2) = description entry.2) :
    describedBy other (properties.map (List.map fun entry => (entry.1, f entry.2)))
      = describedBy description properties := by
  cases properties with
  | none => rfl
  | some entries =>
    simp only [describedBy, Option.map_some, Option.getD_some, List.filterMap_map]
    refine congrArg Assoc.ofList (List.filterMap_congr fun entry he => ?_)
    simp only [Function.comp_apply, h entry he]

theorem find?_foldl_put_described {α : Type} (description : α → Option String)
    {entries : List (String × α)} (h : (Assoc.keys entries).Nodup) (acc : List (String × String))
    (k : String) :
    Assoc.find? k ((entries.filterMap fun entry => (description entry.2).map (entry.1, ·)).foldl
        (fun acc entry => Assoc.put entry.1 entry.2 acc) acc)
      = ((Assoc.find? k entries).bind description).or (Assoc.find? k acc) := by
  induction entries generalizing acc with
  | nil => rfl
  | cons entry rest ih =>
    obtain ⟨name, value⟩ := entry
    obtain ⟨hn, hr⟩ := List.nodup_cons.1 h
    have hrest : Assoc.find? name rest = none := Assoc.find?_eq_none_of_notMem hn
    rw [List.filterMap_cons, Assoc.find?_cons]
    rcases hd : description value with _ | doc
    · rw [Option.map_none, ih hr]
      by_cases hk : k = name
      · simp [hk, hrest, hd]
      · simp [hk]
    · rw [Option.map_some, List.foldl_cons, ih hr, Assoc.find?_put]
      by_cases hk : k = name
      · simp [hk, hrest, hd]
      · simp [hk]

/-- Where no name stands twice, every name has its own text. -/
theorem find?_describedBy {α : Type} (description : α → Option String)
    {properties : Option (List (String × α))} (h : (Assoc.keys (properties.getD [])).Nodup)
    {entry : String × α} (he : entry ∈ properties.getD []) :
    Assoc.find? entry.1 (describedBy description properties) = description entry.2 := by
  rw [describedBy, Assoc.ofList, find?_foldl_put_described description h,
    Assoc.find?_eq_some_of_mem h he]
  simp [Assoc.find?]

inductive Draft where
  /-- The `docs` are what a hook is shown of the descriptions, in the order in which they came. -/
  | edited (keywords : Keywords Draft)
  | written (schema : Schema)
  | verbatim (text : String) (description : Option String)

namespace Draft

section Fold

variable {β : Type} (ofKeywords : Keywords Draft → Keywords β → β) (ofWritten : Schema → β)
  (ofText : String → Option String → β)

mutual
/-- One recursion over a draft, which sees a schema before and after its children are done. -/
def fold : Draft → β
  | .edited ⟨ref, type, format, enum, description, properties, required, additional, allOf, items,
      docs⟩ =>
    ofKeywords ⟨ref, type, format, enum, description, properties, required, additional, allOf, items,
        docs⟩
      { ref, type, format, enum, description, required, docs
        properties := match properties with
          | none => none
          | some entries => some (foldProperties entries)
        additional := match additional with
          | none => none
          | some (.allowed any) => some (.allowed any)
          | some (.values child) => some (.values (fold child))
        allOf := match allOf with
          | none => none
          | some members => some (foldAll members)
        items := match items with
          | none => none
          | some child => some (fold child) }
  | .written schema => ofWritten schema
  | .verbatim text description => ofText text description

def foldProperties : List (String × Draft) → List (String × β)
  | [] => []
  | (name, child) :: rest => (name, fold child) :: foldProperties rest

def foldAll : List Draft → List β
  | [] => []
  | child :: rest => fold child :: foldAll rest
end

theorem foldProperties_eq (entries : List (String × Draft)) :
    foldProperties ofKeywords ofWritten ofText entries
      = entries.map fun entry => (entry.1, fold ofKeywords ofWritten ofText entry.2) := by
  induction entries with
  | nil => rfl
  | cons entry rest ih => simp [foldProperties, ih]

theorem foldAll_eq (children : List Draft) :
    foldAll ofKeywords ofWritten ofText children
      = children.map (fold ofKeywords ofWritten ofText) := by
  induction children with
  | nil => rfl
  | cons child rest ih => simp [foldAll, ih]

theorem fold_edited (keywords : Keywords Draft) :
    fold ofKeywords ofWritten ofText (.edited keywords)
      = ofKeywords keywords (keywords.map (fold ofKeywords ofWritten ofText)) := by
  obtain ⟨ref, type, format, enum, description, properties, required, additional, allOf, items,
    docs⟩ := keywords
  rw [fold.eq_def]
  refine congrArg (ofKeywords _) ?_
  rw [Keywords.map]
  congr 1
  · cases properties with
    | none => rfl
    | some entries =>
      exact congrArg some (foldProperties_eq ofKeywords ofWritten ofText entries)
  · rcases additional with _ | _ | _ <;> rfl
  · cases allOf with
    | none => rfl
    | some members => exact congrArg some (foldAll_eq ofKeywords ofWritten ofText members)
  · cases items <;> rfl

end Fold

/-- Induction over drafts, children first. -/
@[elab_as_elim]
theorem induction {motive : Draft → Prop}
    (edited : ∀ keywords : Keywords Draft, (∀ child ∈ keywords.children, motive child) →
      motive (.edited keywords))
    (written : ∀ schema, motive (.written schema))
    (verbatim : ∀ text description, motive (.verbatim text description)) : ∀ draft, motive draft
  | .edited keywords => edited keywords fun child _ => induction edited written verbatim child
  | .written schema => written schema
  | .verbatim text description => verbatim text description
termination_by draft => sizeOf draft
decreasing_by
  have h := Keywords.sizeOf_lt_of_mem_children ‹child ∈ keywords.children›
  cases keywords
  simp at h ⊢
  omega

def description : Draft → Option String
  | .edited keywords => keywords.description
  | .written schema => schema.description
  | .verbatim _ description => description

/-- The draft as a hook is shown it: references are looked up. -/
def shown (container : String) : Draft → Node :=
  fold (fun _ keywords => .pending keywords)
    (fun schema => (Node.resolveReferences container (.ofSchema schema)).value)
    (fun text _ => .resolved (.verbatim text))

/-- The tree of the edited document, as any document is made a tree: an object has the descriptions
that are written in its properties. -/
def toNode : Draft → Node :=
  fold (fun draft keywords => .pending
      { keywords with docs := describedBy description draft.properties })
    .ofSchema (fun text _ => .resolved (.verbatim text))

/-- The schema of the edited document. Text has no schema; it leaves its description. -/
def toSchema : Draft → Schema :=
  fold (fun _ keywords => { keywords with required := some keywords.required.names })
    id (fun _ description => { description })

/-- The draft has no text of the target language in it. -/
inductive IsSchema : Draft → Prop where
  | edited {keywords : Keywords Draft} (below : ∀ child ∈ keywords.children, child.IsSchema) :
    IsSchema (.edited keywords)
  | written (schema : Schema) : IsSchema (.written schema)

theorem shown_edited (container : String) (keywords : Keywords Draft) :
    shown container (.edited keywords) = .pending (keywords.map (shown container)) :=
  fold_edited ..

theorem toNode_edited (keywords : Keywords Draft) :
    toNode (.edited keywords) = .pending { keywords.map toNode with
      docs := describedBy description keywords.properties } :=
  fold_edited ..

theorem toSchema_edited (keywords : Keywords Draft) :
    toSchema (.edited keywords)
      = { keywords.map toSchema with required := some keywords.required.names } :=
  fold_edited ..

@[simp] theorem description_toSchema (draft : Draft) :
    draft.toSchema.description = draft.description := by
  cases draft with
  | edited keywords => rw [toSchema_edited]; rfl
  | written schema => rfl
  | verbatim text description => rfl

/-- The edited document, made a tree as any document is. -/
theorem ofSchema_toSchema {draft : Draft} (h : draft.IsSchema) :
    Node.ofSchema draft.toSchema = draft.toNode := by
  induction draft using Draft.induction with
  | edited keywords ih =>
    obtain ⟨below⟩ := h
    have hchildren : keywords.map (Node.ofSchema ∘ toSchema) = keywords.map toNode :=
      Keywords.map_congr fun child hc => ih child hc (below child hc)
    have hdocs : Node.describedIn (keywords.map toSchema).properties
        = describedBy description keywords.properties :=
      describedBy_map fun entry _ => description_toSchema entry.2
    have hkeywords : (toSchema (.edited keywords)).keywords = { keywords.map toSchema with
        docs := describedBy description keywords.properties } := by
      rw [toSchema_edited]
      simp only [Schema.keywords, Option.getD_some, RequiredSet.ofList_names, hdocs,
        Keywords.map_required]
    rw [Node.ofSchema_eq, hkeywords, toNode_edited, ← hchildren, ← Keywords.map_map]
    rfl
  | written schema => rfl
  | verbatim text description => cases h

end Draft
end SchemaTypes
