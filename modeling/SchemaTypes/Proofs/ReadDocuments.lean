import SchemaTypes.Generator
import SchemaTypes.Path
import SchemaTypes.Proofs.Distinct

/-! Documents that are read from text, JSON or YAML, name every definition and every property
once. -/
namespace SchemaTypes

/-- No definition is named twice, and no property of an object in them. -/
structure Document.Distinct (document : Document) : Prop where
  names : (Assoc.keys (document.definitions.getD [])).Nodup
  schemas : ∀ entry ∈ document.definitions.getD [], entry.2.Distinct

namespace Document

theorem Distinct.of_eq_some {document : Document} (h : document.Distinct) :
    ∀ definitions, document.definitions = some definitions →
      ∀ entry ∈ definitions, entry.2.Distinct := by
  intro definitions hd
  have hschemas := h.schemas
  rwa [hd] at hschemas

theorem distinct_empty : Document.Distinct {} := ⟨List.nodup_nil, List.forall_mem_nil _⟩

/-- What is read one by one and put in order by its names. -/
theorem distinct_ofList {found : List (String × Schema)} (h : ∀ entry ∈ found, entry.2.Distinct) :
    Document.Distinct ⟨some (Assoc.ofList found)⟩ :=
  ⟨Assoc.nodup_keys_ofList found, Assoc.forall_mem_ofList h⟩

/-! ### JSON -/

theorem distinct_of_definitions? {item : Item} {definitions : Option (List (String × Schema))}
    (h : definitions? item = some definitions) : Document.Distinct ⟨definitions⟩ := by
  unfold definitions? at h
  split at h
  · cases h
    exact distinct_empty
  · obtain ⟨found, hfound, rfl⟩ := Option.map_eq_some_iff.1 h
    exact distinct_ofList (Schema.distinct_of_ofProperties? hfound)
  · cases h

theorem distinct_of_ofJson? {text : String} {document : Document}
    (h : ofJson? text = some document) : document.Distinct := by
  obtain ⟨item, _, hitem⟩ := Option.bind_eq_some_iff.1 h
  unfold ofItem? at hitem
  split at hitem
  next entries =>
    obtain ⟨marks, _, hmarks⟩ := Option.bind_eq_some_iff.1 hitem
    split at hmarks
    · cases hmarks
      exact distinct_empty
    · obtain ⟨found, hfound, hdocument⟩ := Option.bind_eq_some_iff.1 hmarks
      cases hdocument
      exact distinct_of_definitions? hfound
    · cases hmarks
  next item =>
    obtain ⟨found, hfound, hdocument⟩ := Option.bind_eq_some_iff.1 hitem
    cases hdocument
    exact distinct_of_definitions? hfound
  next => cases hitem

end Document

/-! ### YAML -/

namespace Yaml

variable {α β : Type} {p : α → Prop} {q : β → Prop}

/-- Whatever the reading gives has the property. -/
def Gives (p : α → Prop) (step : Reading α) : Prop :=
  ∀ left a after, step left = some (a, after) → p a

namespace Gives

theorem pure {a : α} (h : p a) : Gives p (Pure.pure a) := by
  intro left a after hrun
  cases hrun
  exact h

theorem failure : Gives p failure := fun _ _ _ hrun => nomatch hrun

/-- The steps in front do not matter, but for what they give. -/
theorem bind {step : Reading β} {next : β → Reading α} (h : Gives q step)
    (hnext : ∀ b, q b → Gives p (next b)) : Gives p (step >>= next) := by
  intro left a after hrun
  obtain ⟨⟨b, middle⟩, hb, ha⟩ := Option.bind_eq_some_iff.1 hrun
  exact hnext b (h left b middle hb) middle a after ha

theorem any (step : Reading α) : Gives (fun _ => True) step := fun _ _ _ _ => trivial

theorem of_next {step : Reading β} {next : β → Reading α} (h : ∀ b, Gives p (next b)) :
    Gives p (step >>= next) :=
  (any step).bind fun b _ => h b

theorem map {step : Reading β} {f : β → α} (h : Gives q step) (hf : ∀ b, q b → p (f b)) :
    Gives p (f <$> step) := by
  rw [map_eq_pure_bind]
  exact h.bind fun b hb => .pure (hf b hb)

theorem ofOption {found : Option α} (h : ∀ a, found = some a → p a) :
    Gives p (Yaml.ofOption found) := by
  cases found with
  | none => exact failure
  | some a => exact .pure (h a rfl)

theorem mapM {f : β → Reading α} {bs : List β} (h : ∀ b, Gives p (f b)) :
    Gives (fun as => ∀ a ∈ as, p a) (bs.mapM f) := by
  induction bs with
  | nil => exact .pure (List.forall_mem_nil _)
  | cons b bs ih =>
    rw [List.mapM_cons]
    refine (h b).bind fun a ha => ih.bind fun as has => .pure ?_
    exact List.forall_mem_cons.2 ⟨ha, has⟩

/-- An absent value is nothing, and any other is what is read. -/
theorem optional {anchors : Anchors} {read : Node → Reading α} (h : ∀ node, Gives p (read node))
    (node : Node) : Gives (fun found => ∀ a, found = some a → p a)
      (Yaml.optional anchors read node) := by
  have hsome (node : Node) : Gives (fun found => ∀ a, found = some a → p a)
      (do return some (← read node)) := by
    refine (h node).bind fun a ha => .pure fun b hb => ?_
    cases hb
    exact ha
  refine of_next fun node => ?_
  split
  · refine of_next fun absent => ?_
    split
    · exact .pure fun a ha => nomatch ha
    · exact hsome _
  · exact hsome _

end Gives

theorem gives_additional (anchors : Anchors) (depth : Nat) (node : Node) :
    Gives (fun rule => ∀ child, rule = .values child → child.Distinct)
      (additional anchors depth node) := by
  refine .of_next fun item => ?_
  split
  · exact .pure fun child hc => nomatch hc
  · refine (Gives.ofOption fun child => Schema.distinct_of_ofItem?).map fun child hd other ho => ?_
    cases ho
    exact hd

/-- A schema that is read keyword by keyword. -/
theorem gives_fill (anchors : Anchors) {read : Schema → Keyword → Node → Reading Schema}
    (h : ∀ schema keyword node, schema.Distinct → Gives Schema.Distinct (read schema keyword node))
    {entries : List (Node × Node)} : ∀ {seen : List Keyword} {schema : Schema}, schema.Distinct →
      Gives Schema.Distinct (fill anchors read seen schema entries) := by
  induction entries with
  | nil => exact fun hs => .pure hs
  | cons entry rest ih =>
    intro seen schema hs
    refine .of_next fun name => ?_
    split
    · exact ih hs
    · split
      · exact .failure
      · exact (h _ _ _ hs).bind fun schema hs => ih hs

mutual
theorem gives_schema (anchors : Anchors) : ∀ (depth : Nat) (node : Node),
    Gives Schema.Distinct (schema anchors depth node)
  | 0, node => by
    rw [schema]
    refine .of_next fun node => ?_
    split
    · exact .pure (Schema.distinct_of_children_eq_nil rfl)
    · exact .failure
  | depth + 1, node => by
    rw [schema]
    refine .of_next fun node => ?_
    split
    · exact .pure (Schema.distinct_of_children_eq_nil rfl)
    · refine gives_fill anchors ?_ (Schema.distinct_of_children_eq_nil rfl)
      intro schema keyword node hs
      obtain ⟨names, properties, members, items, additional⟩ := Schema.distinct_iff.1 hs
      cases keyword with
      | ref | type | format | description | enum | required =>
        exact .of_next fun _ =>
          .pure (Schema.distinct_iff.2 ⟨names, properties, members, items, additional⟩)
      | additional =>
        refine (Gives.optional (gives_additional anchors depth) node).bind fun rule hr => .pure ?_
        refine Schema.distinct_iff.2 ⟨names, properties, members, items, fun child hc => ?_⟩
        exact hr _ hc child rfl
      | items =>
        refine (Gives.optional (gives_schema anchors depth) node).bind fun found hf => .pure ?_
        exact Schema.distinct_iff.2 ⟨names, properties, members, hf, additional⟩
      | allOf =>
        refine (Gives.optional (gives_schemas anchors depth) node).bind fun found hf => .pure ?_
        refine Schema.distinct_iff.2 ⟨names, properties, ?_, items, additional⟩
        cases found with
        | none => exact List.forall_mem_nil _
        | some found => exact hf found rfl
      | properties =>
        refine (Gives.optional (gives_named anchors depth) node).bind fun found hf => .pure ?_
        cases found with
        | none =>
          exact Schema.distinct_iff.2 ⟨List.nodup_nil, List.forall_mem_nil _, members, items,
            additional⟩
        | some found =>
          obtain ⟨hnames, hschemas⟩ := hf found rfl
          exact Schema.distinct_iff.2 ⟨hnames, hschemas, members, items, additional⟩
    · exact .failure

theorem gives_schemas (anchors : Anchors) : ∀ (depth : Nat) (node : Node),
    Gives (fun found => ∀ schema ∈ found, schema.Distinct) (schemas anchors depth node)
  | 0, node => by
    rw [schemas]
    refine .of_next fun node => ?_
    split
    · exact .pure (List.forall_mem_nil _)
    · exact .failure
  | depth + 1, node => by
    rw [schemas]
    refine .of_next fun node => ?_
    split
    · exact .pure (List.forall_mem_nil _)
    · exact .mapM (gives_schema anchors depth)
    · exact .failure

theorem gives_named (anchors : Anchors) : ∀ (depth : Nat) (node : Node),
    Gives (fun found => Document.Distinct ⟨some found⟩) (named anchors depth node)
  | 0, node => by
    rw [named]
    refine .of_next fun node => ?_
    split
    · exact .pure (Document.distinct_ofList (List.forall_mem_nil _))
    · exact .failure
  | depth + 1, node => by
    rw [named]
    refine .of_next fun node => ?_
    split
    · exact .pure (Document.distinct_ofList (List.forall_mem_nil _))
    · refine Gives.map (.mapM fun (key, value) => .of_next fun name => ?_)
        fun found => Document.distinct_ofList
      exact (gives_schema anchors depth value).bind fun _ hs => .pure hs
    · exact .failure
end

theorem gives_findDefinitions (anchors : Anchors) (depth : Nat) {entries : List (Node × Node)} :
    ∀ {found : Bool} {document : Document}, document.Distinct →
      Gives Document.Distinct (findDefinitions anchors depth found document entries) := by
  induction entries with
  | nil => exact fun hd => .pure hd
  | cons entry rest ih =>
    intro found document hd
    refine .of_next fun name => ?_
    split
    · split
      · exact .failure
      refine (Gives.optional (gives_named anchors depth) entry.2).bind fun found hf => ih ?_
      cases found with
      | none => exact Document.distinct_empty
      | some definitions => exact hf definitions rfl
    · exact ih hd

theorem gives_document (anchors : Anchors) (node : Node) :
    Gives Document.Distinct (document anchors node) := by
  refine .of_next fun node => ?_
  split
  · exact .pure Document.distinct_empty
  · exact gives_findDefinitions anchors _ Document.distinct_empty
  · exact .failure

end Yaml

theorem Document.distinct_of_ofYaml? {text : String} {document : Document}
    (h : ofYaml? text = some document) : document.Distinct := by
  obtain ⟨root, _, hroot⟩ := Option.bind_eq_some_iff.1 h
  cases root with
  | none =>
    cases hroot
    exact distinct_empty
  | some root =>
    obtain ⟨⟨found, after⟩, hrun, rfl⟩ := Option.map_eq_some_iff.1 hroot
    exact Yaml.gives_document _ root _ found after hrun

/-! ### Runs on text -/

/-- The document that a text in a format says. -/
def Document.ofText? : InputFormat → String → Option Document
  | .json => ofJson?
  | .yaml => ofYaml?

theorem Document.distinct_of_ofText? {format : InputFormat} {text : String} {document : Document}
    (h : ofText? format text = some document) : document.Distinct := by
  cases format with
  | json => exact distinct_of_ofJson? h
  | yaml => exact distinct_of_ofYaml? h

namespace Generator

variable {σ : Type}

/-- The run on the text of a document in a format. -/
def generateText (generator : Generator σ) (format : InputFormat) (text : String) :
    Generating σ String :=
  match format with
  | .json => generator.generateJson text
  | .yaml => generator.generateYaml text

theorem generateText_of_ofText? (generator : Generator σ) (format : InputFormat) (text : String) :
    generator.generateText format text = match Document.ofText? format text with
      | some document => generator.generate document
      | none => throw (match format with | .json => .invalidJson | .yaml => .invalidYaml) := by
  cases format with
  | json => rfl
  | yaml => rfl

/-- A run on text is one on a document without repeated names, or fails at once. -/
theorem generateText_eq (format : InputFormat) (text : String) :
    (∃ document : Document, document.Distinct ∧ Document.ofText? format text = some document
      ∧ ∀ generator : Generator σ, generator.generateText format text = generator.generate document)
    ∨ ∃ cause, ∀ generator : Generator σ, generator.generateText format text = throw cause := by
  simp only [generateText_of_ofText?]
  cases h : Document.ofText? format text with
  | none => exact .inr ⟨_, fun _ => rfl⟩
  | some document =>
    exact .inl ⟨document, Document.distinct_of_ofText? h, rfl, fun _ => rfl⟩

end Generator
end SchemaTypes
