import SchemaTypes.Proofs.PointerEscape
import SchemaTypes.Proofs.Position
import SchemaTypes.Proofs.PropertyFaces

/-! The warnings of a run without a hook, read off the schemas as they are written: for every
definition first the references that lead elsewhere, then the types that are not known, each once
and in the order of the schemas. -/
namespace SchemaTypes

open Steps (outcome)

variable {σ : Type}

namespace Keywords

variable {α : Type}

theorem shape_eq_unknown_iff {schema : Keywords α} :
    schema.shape = .unknown ↔ schema.ref = none ∧ schema.properties = none ∧ schema.allOf = none
      ∧ schema.additional = none ∧ schema.items = none
      ∧ (∀ type, schema.type = some type → Primitive.isKnownType type = false)
      ∧ (schema.type = none → schema.enum = none) := by
  unfold shape Primitive.isKnownType
  simp only [← Option.not_isSome_iff_eq_none]
  cases htype : schema.type with
  | none => grind
  | some type =>
    simp only [Option.some.injEq, forall_eq', Option.bind_some]
    grind

theorem children_of_shape_eq_unknown {schema : Keywords α} (h : schema.shape = .unknown) :
    schema.children = [] := by
  obtain ⟨-, hproperties, hallOf, hadditional, hitems, -⟩ := shape_eq_unknown_iff.1 h
  simp [children, hproperties, hallOf, hadditional, hitems]

end Keywords

/-- A schema in a tree, with the schemas that it stands below, the outermost first. -/
structure Placed where
  above : List Schema
  schema : Schema

def Placed.under (schema : Schema) (placed : Placed) : Placed :=
  { placed with above := schema :: placed.above }

namespace Schema

/-- Every schema of a tree, depth first, each in front of those below it. -/
def placed : Schema → List Placed :=
  fold fun schema below => ⟨[], schema⟩ :: below.children.flatten.map (Placed.under schema)

theorem placed_eq (schema : Schema) : schema.placed
    = ⟨[], schema⟩ :: schema.keywords.children.flatMap
      fun child => child.placed.map (Placed.under schema) := by
  rw [placed, fold_eq, Keywords.children_map, ← List.flatMap_def, List.map_flatMap]

/-! ### What is remarked on in a tree -/

variable {hides : Schema → Bool} {remark? : Schema → Option Notice}

/-- The remarks on the schemas of a tree, without those on schemas below one that hides them. -/
def remarks (hides : Schema → Bool) (remark? : Schema → Option Notice) (schema : Schema) :
    List Notice :=
  schema.placed.filterMap fun placed =>
    if placed.above.any hides then none else remark? placed.schema

/-- The remark on a schema comes in front of those on its children, which it may hide. -/
theorem remarks_eq (hides : Schema → Bool) (remark? : Schema → Option Notice) (schema : Schema) :
    schema.remarks hides remark? = (remark? schema).toList
      ++ if hides schema then [] else schema.keywords.children.flatMap (remarks hides remark?) := by
  have hbelow (child : Schema) : (child.placed.map (Placed.under schema)).filterMap
      (fun placed => if placed.above.any hides then none else remark? placed.schema)
      = if hides schema then [] else child.remarks hides remark? := by
    rw [List.filterMap_map, remarks]
    cases h : hides schema <;> simp [Placed.under, h]
  rw [remarks, placed_eq, List.filterMap_cons, List.filterMap_flatMap]
  simp only [hbelow]
  cases hides schema <;> cases remark? schema <;> simp

theorem forall_mem_remarks {p : Notice → Prop}
    (h : ∀ schema notice, remark? schema = some notice → p notice) {schema : Schema} :
    ∀ notice ∈ schema.remarks hides remark?, p notice := by
  intro notice hn
  obtain ⟨placed, -, hremark⟩ := List.mem_filterMap.1 hn
  split at hremark
  · cases hremark
  · exact h placed.schema notice hremark

/-! ### References that lead elsewhere -/

def isReference (schema : Schema) : Bool := schema.ref.isSome

/-- The warning about a pointer to something that is no definition. -/
def foreignPointer? (schema : Schema) : Option Notice :=
  schema.ref.bind fun pointer =>
    if Pointer.definitionsRoot <+: pointer.toList then none else some (.foreignPointer pointer)

theorem level_foreignPointer? (schema : Schema) (notice : Notice)
    (h : schema.foreignPointer? = some notice) : notice.level = .warn := by
  obtain ⟨pointer, -, hpointer⟩ := Option.bind_eq_some_iff.1 h
  split at hpointer
  · cases hpointer
  · cases hpointer
    rfl

theorem notices_name (pointer : String) : (Pointer.name pointer).notices
    = if Pointer.definitionsRoot <+: pointer.toList then [] else [.foreignPointer pointer] := by
  rw [Pointer.name_eq]
  split <;> rfl

/-- Looking up references warns about those that lead elsewhere. -/
theorem notices_resolveReferences (container : String) (schema : Schema) :
    (Node.resolveReferences container (.ofSchema schema)).notices
      = schema.remarks isReference foreignPointer? := by
  induction schema using Schema.induction with
  | step schema ih =>
    rw [remarks_eq, Node.ofSchema_eq, Node.notices_resolveReferences_pending, Keywords.map_ref,
      show schema.keywords.ref = schema.ref from rfl]
    cases h : schema.ref with
    | some pointer =>
      dsimp only
      rw [notices_name]
      unfold isReference foreignPointer?
      rw [h]
      by_cases hroot : Pointer.definitionsRoot <+: pointer.toList <;> simp [hroot]
    | none =>
      have hchildren := List.flatMap_congr ih
      simp [isReference, foreignPointer?, h, Keywords.children_map, List.flatMap_map, hchildren]

/-! ### Types that are not known -/

/-- A reference or a primitive: what stands below it is dropped before types are looked at. -/
def isScalarOrReference (schema : Schema) : Bool :=
  schema.ref.isSome || schema.keywords.shape == .primitive

/-- Whether nothing but a declared type can say what the schema describes. -/
def hasNoStructure (schema : Schema) : Bool :=
  schema.ref.isNone && schema.properties.isNone && schema.allOf.isNone
    && schema.additional.isNone && schema.items.isNone

/-- The warning about a declared type that is not known, where nothing else says more. -/
def unknownType? (schema : Schema) : Option Notice :=
  if schema.hasNoStructure then
    schema.type.bind fun type =>
      if Primitive.isKnownType type then none else some (.unknownType type)
  else none

theorem level_unknownType? (schema : Schema) (notice : Notice)
    (h : schema.unknownType? = some notice) : notice.level = .warn := by
  unfold unknownType? at h
  split at h
  · obtain ⟨type, -, htype⟩ := Option.bind_eq_some_iff.1 h
    split at htype
    · cases htype
    · cases htype
      rfl
  · cases h

theorem notices_resolveComposite (schema : SchemaNode) :
    (Node.resolveComposite schema).notices
      = if schema.shape = .unknown then (schema.type.map Notice.unknownType).toList else [] := by
  unfold Node.resolveComposite
  cases schema.shape with
  | object =>
    by_cases h : schema.isEmptyShape ∨ schema.isReady
    · obtain ⟨type, htype⟩ := Node.resolveObject_of_ready h
      simp [htype]
    · simp [Node.resolveObject_of_not_ready h]
  | unknown => cases schema.type <;> simp [Noted.give]
  | array | reference | primitive => simp

/-- A declared type that is not known counts where the schema has no known shape. -/
theorem unknownType?_eq (schema : Schema) : schema.unknownType?
    = if schema.keywords.shape = .unknown then schema.type.map Notice.unknownType else none := by
  unfold unknownType? hasNoStructure
  simp only [Keywords.shape_eq_unknown_iff]
  cases htype : schema.type with
  | none => simp
  | some type =>
    cases hknown : Primitive.isKnownType type
    · simp [keywords, htype, hknown, and_assoc]
    · simp [keywords, htype, hknown]

/-- Resolving what stands beside the references warns about types that are not known. -/
theorem notices_resolveComposites (container : String) (schema : Schema) :
    (Node.resolveComposites (Node.resolvePrimitives (Node.loaded container schema))).notices
      = schema.remarks isScalarOrReference unknownType? := by
  induction schema using Schema.induction with
  | step schema ih =>
    rw [remarks_eq, unknownType?_eq, show schema.isScalarOrReference
      = (schema.ref.isSome || schema.keywords.shape == .primitive) from rfl]
    cases href : schema.ref with
    | some pointer =>
      have hshape : schema.keywords.shape = .reference := by
        rw [Keywords.shape_eq_reference_iff, show schema.keywords.ref = _ from href]
        rfl
      rw [Node.loaded_of_ref container href, hshape]
      simp
    | none =>
      rw [Node.loaded_of_ref_eq_none container href, Node.resolvePrimitives_pending,
        Node.resolvePrimitive, Keywords.shape_map, Keywords.shape_map]
      by_cases hprimitive : schema.keywords.shape = .primitive
      · simp [hprimitive]
      · have hchildren := List.flatMap_congr ih
        rw [if_neg hprimitive, Node.notices_resolveComposites_pending, notices_resolveComposite,
          Keywords.children_map, Keywords.children_map, List.flatMap_map, List.flatMap_map,
          hchildren]
        by_cases hunknown : schema.keywords.shape = .unknown
        · simp [hunknown, Keywords.children_of_shape_eq_unknown hunknown]
          rfl
        · simp [hprimitive, hunknown]

end Schema

namespace Generator

theorem notices_resolve_of_none {generator : Generator σ} (h : generator.mapper = none)
    (schema : Schema) (state : σ) :
    (outcome (generator.resolve (.ofSchema schema)) state).notices
      = schema.remarks Schema.isReference Schema.foreignPointer?
        ++ schema.remarks Schema.isScalarOrReference Schema.unknownType? := by
  rw [← Schema.notices_resolveReferences generator.options.container,
    ← Schema.notices_resolveComposites generator.options.container]
  unfold resolve
  rw [h, Steps.notices_outcome_bind, Steps.notices_outcome_lift, Steps.value_outcome_lift]
  dsimp only
  rw [pure_bind, Steps.notices_outcome_lift]
  rfl

theorem notices_resolveAll_of_none {generator : Generator σ} (h : generator.mapper = none)
    (definitions : List (String × Schema)) (state : σ) :
    (outcome (generator.resolveAll
      (definitions.map fun (name, schema) => (name, .ofSchema schema))) state).notices
      = definitions.flatMap fun entry => entry.2.remarks Schema.isReference Schema.foreignPointer?
        ++ entry.2.remarks Schema.isScalarOrReference Schema.unknownType? := by
  induction definitions with
  | nil => rfl
  | cons entry rest ih =>
    rw [List.map_cons, resolveAll, Steps.notices_outcome_bind, notices_resolve_of_none h,
      value_resolve_of_none h, List.flatMap_cons, ← ih]
    dsimp only
    rw [Steps.notices_outcome_bind]
    split <;> simp

theorem notices_formatting (step : ExceptT FormatError (StateM σ) String) (state : σ) :
    (outcome (formatting step) state).notices = [] := by
  rw [outcome_formatting]
  rfl

/-- The source of definitions is announced by their number, and what is said about it comes from
them. -/
theorem notices_source_of_none {generator : Generator σ} (h : generator.mapper = none)
    (definitions : List (String × Schema)) (state : σ) :
    (outcome (generator.source ⟨some definitions⟩) state).notices
      = .started definitions.length :: definitions.flatMap fun entry =>
        entry.2.remarks Schema.isReference Schema.foreignPointer?
          ++ entry.2.remarks Schema.isScalarOrReference Schema.unknownType? := by
  show (outcome (generator.sourceOf _) state).notices = _
  rw [sourceOf, Steps.notices_outcome_bind, Steps.notices_outcome_lift, Steps.value_outcome_lift,
    List.length_map]
  dsimp only
  rw [Steps.notices_outcome_bind, notices_resolveAll_of_none h, Noted.give, List.singleton_append]
  congr 1
  split
  next nodes after _ =>
    cases Declaration.file nodes generator.options.container generator.options.banner <;> simp
  next => simp

theorem notices_generate (generator : Generator σ) (document : Document) (state : σ) :
    (outcome (generator.generate document) state).notices
      = (outcome (generator.source document) state).notices := by
  rw [generate, Steps.notices_outcome_bind]
  split
  · rw [notices_formatting, List.append_nil]
  · rw [List.append_nil]

/-- A run without a hook warns about what its types lose, each time once. For every definition, in
the order of the document, the warnings are first one for each reference that leads to no
definition, unless it stands below another reference, and then one for each declared type that is
not known, where the schema has no reference, no keyword of an object and no items, and stands below
no reference and no primitive. Both follow the order of the schemas, depth first: properties,
members, items, values of further properties. Nothing else is warned about, whatever the formatter
does. -/
theorem warnings_without_hook (generator : Generator σ) (h : generator.mapper = none)
    (document : Document) (state : σ) :
    (outcome (generator.generate document) state).notices.filter (·.level = .warn)
      = (document.definitions.getD []).flatMap fun entry =>
        entry.2.remarks Schema.isReference Schema.foreignPointer?
          ++ entry.2.remarks Schema.isScalarOrReference Schema.unknownType? := by
  rw [notices_generate]
  obtain ⟨_ | definitions⟩ := document
  · rfl
  · rw [notices_source_of_none h, List.filter_cons_of_neg (by simp [Notice.level]),
      List.filter_eq_self.2]
    · rfl
    · intro notice hn
      obtain ⟨entry, -, hmem⟩ := List.mem_flatMap.1 hn
      rcases List.mem_append.1 hmem with hforeign | hunknown
      · simpa using Schema.forall_mem_remarks Schema.level_foreignPointer? notice hforeign
      · simpa using Schema.forall_mem_remarks Schema.level_unknownType? notice hunknown

/-- References and types that are lost, some of them where nothing looks at them: below a reference,
below a primitive, beside a rule for further properties. -/
def lossyDefinitions : List (String × Schema) :=
  [("A", { ref := some "a.json", items := some { ref := some "below.json" } }),
    ("B", {
      properties := some [("x", { type := some "file" }),
        ("y", { type := some "file", additional := some (.allowed false) })]
      allOf := some [{ ref := some "#/definitions/A" }, { type := some "uuid", enum := some [] }]
      items := some { type := some "string", items := some { type := some "file" },
                      allOf := some [{ type := some "file", ref := some "b.json" }] }
      additional := some (.values { type := some "x" }) })]

theorem warnings_without_hook_lossy :
    ({} : Generator Unit).mapper = none
    ∧ (outcome (({} : Generator Unit).generate ⟨some lossyDefinitions⟩) ()).notices.filter
        (·.level = .warn)
      = [.foreignPointer "a.json", .foreignPointer "b.json", .unknownType "file",
        .unknownType "uuid", .unknownType "x"] := by
  refine ⟨rfl, (warnings_without_hook {} rfl ⟨some lossyDefinitions⟩ ()).trans ?_⟩
  decide +kernel

end Generator
end SchemaTypes
