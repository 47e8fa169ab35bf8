import SchemaTypes.Proofs.JsonChecks
import SchemaTypes.Proofs.ReadDocuments
import SchemaTypes.Proofs.WrittenSchema

/-! Documents written as values, and those as texts. Reading gives back the document that was
written. -/
namespace SchemaTypes

/-- A document is written as a table that says its definitions, among any other names. -/
def Document.Written (document : Document) (item : Item) : Prop :=
  ∃ entries : List (String × Item),
    item = .table (entries.map fun entry => (.text entry.1, entry.2))
    ∧ SaysOnce entries "definitions"
      (WrittenOption (WrittenTable Schema.Written) document.definitions)

namespace Document

/-- Of a name that stands once at most, the entry that is found is the only one. -/
theorem filter_of_count_le_one {name : String} {entries : List (String × Item)}
    (once : (Assoc.keys entries).count name ≤ 1) : entries.filter (fun entry => entry.1 == name)
      = ((Assoc.find? name entries).map fun item => (name, item)).toList := by
  induction entries with
  | nil => rfl
  | cons entry rest ih =>
    obtain ⟨other, item⟩ := entry
    rw [Assoc.keys_cons, List.count_cons] at once
    rw [Assoc.find?_cons]
    by_cases heq : other = name
    · subst heq
      have hgone : other ∉ Assoc.keys rest := by
        rw [beq_self_eq_true, if_pos rfl] at once
        exact List.count_eq_zero.1 (by omega)
      have hrest := ih (by omega)
      rw [Assoc.find?_eq_none_of_notMem hgone] at hrest
      simpa using hrest
    · have hrest := ih (by omega)
      have hne : (other == name) = false := beq_eq_false_iff_ne.2 heq
      rw [List.filter_cons, hne, if_neg (Ne.symm heq)]
      exact hrest

theorem definitions?_eq (item : Item) : definitions? item = item.optional? Schema.named? := by
  cases item with
  | table members =>
    cases hread : Schema.ofProperties? members <;>
      simp [definitions?, Item.optional?, Schema.named?, hread]
  | _ => rfl

/-- Among the entries of a document only its definitions count. -/
theorem ofItem?_table {entries : List (String × Item)}
    (once : (Assoc.keys entries).count "definitions" ≤ 1) :
    ofItem? (.table (entries.map fun entry => (.text entry.1, entry.2)))
      = match Assoc.find? "definitions" entries with
        | none => some {}
        | some item => (definitions? item).map Document.mk := by
  have hmarks : (entries.map fun entry => (Item.text entry.1, entry.2)).mapM
        (fun entry => isDefinitions? entry.1)
      = some (entries.map fun entry => entry.1 == "definitions") := by
    clear once
    induction entries with
    | nil => rfl
    | cons entry rest ih =>
      rw [List.map_cons, List.mapM_cons, ih]
      rfl
  have hfilter : (((entries.map fun entry => (Item.text entry.1, entry.2)).zip
        (entries.map fun entry => entry.1 == "definitions")).filter (·.2))
      = (entries.filter fun entry => entry.1 == "definitions").map fun entry =>
        ((.text entry.1, entry.2), entry.1 == "definitions") := by
    rw [List.zip_map', List.filter_map]
    rfl
  simp only [ofItem?, hmarks, Option.bind_eq_bind, Option.bind_some, hfilter,
    filter_of_count_le_one once]
  cases Assoc.find? "definitions" entries with
  | none => rfl
  | some item =>
    show ((definitions? item).bind fun found => some ⟨found⟩) = (definitions? item).map Document.mk
    rw [Option.map_eq_bind]
    rfl

/-- Reading a document undoes writing it, in any way and with any other names beside what is read:
every text of a value that says the document is read as the document. -/
theorem reading_undoes_writing {document : Document} (distinct : document.Distinct) {item : Item}
    (written : document.Written item) {text : String} (spells : Json.Spells text item)
    (depth : item.depth ≤ 127) : Document.ofJson? text = some document := by
  obtain ⟨names, schemas⟩ := distinct
  have hitem : Json.item? text = some item := Json.item?_of_spells spells depth
  have readable := Json.isReadable_of_spells spells
  obtain ⟨entries, rfl, once, hsays⟩ := written
  have hdefinitions : WrittenOption (WrittenTable Schema.Written) document.definitions
    ((Assoc.find? "definitions" entries).getD .null) := hsays
  obtain ⟨definitions⟩ := document
  rw [Document.ofJson?, hitem, Option.bind_eq_bind, Option.bind_some, ofItem?_table once]
  cases hfind : Assoc.find? "definitions" entries with
  | none =>
    rw [hfind] at hdefinitions
    obtain rfl : definitions = none := by
      apply hdefinitions.eq_none
      rintro schemas ⟨members, h, -⟩
      cases h
    rfl
  | some item =>
    rw [hfind, Option.getD_some] at hdefinitions
    have hmem : ("definitions", item) ∈ entries := Assoc.mem_of_find?_eq_some hfind
    have hreadable : item.isReadable = true :=
      Item.isReadable_of_mem_table readable (List.mem_map_of_mem hmem)
    have hread : ∀ schemas ∈ definitions, WrittenTable Schema.Written schemas item →
        item ≠ .null ∧ Schema.named? item = some schemas := by
      rintro found rfl
      rw [Option.getD_some] at names schemas
      exact Schema.named?_of_written names
        (fun entry he => Schema.ofItem?_of_written (schemas entry he)) hreadable
    dsimp only
    rw [definitions?_eq, hdefinitions.optional? hread, Option.map_some]

/-- A pet with a tag and labels by language. A tag is a pet with numbers. -/
def shopDocument : Document := ⟨some [
  ("Pet", {
    type := some "object"
    description := some "A \"pet\"\n"
    required := some ["name"]
    properties := some [
      ("name", { type := some "string" }),
      ("tag", { ref := some "#/definitions/Tag" }),
      ("labels", { additional := some (.values
        { additional := some (.values { enum := some [.string "é", .null] }) }) })] }),
  ("Tag", {
    allOf := some [
      { ref := some "#/definitions/Pet" },
      { type := some "array"
        items := some { type := some "integer", format := some "int64" }
        additional := some (.allowed false) }] })]⟩

/-- The document among other names, with keywords in no order and some that are `null`. -/
def shopItem : Item := .table [
  (.text "swagger", .text "2.0"),
  (.text "definitions", .table [
    (.text "Pet", .table [
      (.text "required", .list [.text "name"]),
      (.text "properties", .table [
        (.text "name", .table [(.text "maxLength", .number (.int 20)), (.text "type", .text "string")]),
        (.text "tag", .table [(.text "$ref", .text "#/definitions/Tag")]),
        (.text "labels", .table [(.text "additionalProperties", .table [
          (.text "additionalProperties", .table [(.text "enum", .list [.text "é", .null])]),
          (.text "items", .null)])])]),
      (.text "description", .text "A \"pet\"\n"),
      (.text "type", .text "object")]),
    (.text "Tag", .table [
      (.text "type", .null),
      (.text "allOf", .list [
        .table [(.text "$ref", .text "#/definitions/Pet")],
        .table [
          (.text "items", .table [(.text "format", .text "int64"), (.text "type", .text "integer")]),
          (.text "additionalProperties", .bool false),
          (.text "type", .text "array")]])])])]

def shopText : String := "\n".intercalate [
  "\x7b\"swagger\": \"2.0\", \"definitions\": \x7b",
  "  \"Pet\": \x7b\"required\": [\"name\"], \"properties\": \x7b",
  "    \"name\": \x7b\"maxLength\": 20, \"type\": \"string\"\x7d,",
  "    \"tag\": \x7b\"$ref\": \"#/definitions/Tag\"\x7d,",
  "    \"labels\": \x7b\"additionalProperties\": \x7b\"additionalProperties\":",
  "      \x7b\"enum\": [\"é\", null]\x7d, \"items\": null\x7d\x7d\x7d,",
  "    \"description\": \"A \\\"pet\\\"\\n\", \"type\": \"object\"\x7d,",
  "  \"Tag\": \x7b\"type\": null, \"allOf\": [\x7b\"$ref\": \"#/definitions/Pet\"\x7d,",
  "    \x7b\"items\": \x7b\"format\": \"int64\", \"type\": \"integer\"\x7d,",
  "    \"additionalProperties\": false, \"type\": \"array\"\x7d]\x7d\x7d\x7d", ""]

theorem shopDocument_distinct : shopDocument.Distinct := by
  have hleaf {schema : Schema} (h : schema.keywords.children = []) : schema.Distinct :=
    Schema.distinct_of_children_eq_nil h
  have hlabels : Schema.Distinct { additional := some (.values
      { additional := some (.values { enum := some [.string "é", .null] }) }) } := by
    refine .mk List.nodup_nil (List.forall_mem_singleton.2 ?_)
    exact .mk List.nodup_nil (List.forall_mem_singleton.2 (hleaf rfl))
  refine ⟨by decide, List.forall_mem_cons.2 ⟨.mk (by decide) ?_, List.forall_mem_singleton.2 ?_⟩⟩
  · exact List.forall_mem_cons.2 ⟨hleaf rfl, List.forall_mem_cons.2 ⟨hleaf rfl,
      List.forall_mem_singleton.2 hlabels⟩⟩
  · refine .mk List.nodup_nil (List.forall_mem_cons.2 ⟨hleaf rfl, List.forall_mem_singleton.2 ?_⟩)
    exact .mk List.nodup_nil (List.forall_mem_singleton.2 (hleaf rfl))

/-- Schema by schema, from the innermost on. -/
theorem shopDocument_written : shopDocument.Written shopItem := by
  have href (pointer : String) : Schema.Written { ref := some pointer }
      (.table [(.text "$ref", .text pointer)]) := by
    refine Schema.written_iff.2 ⟨[("$ref", _)], rfl, ?_⟩
    constructor <;> exact ⟨show List.count _ ["$ref"] ≤ 1 by decide, rfl⟩
  have hname : Schema.Written { type := some "string" }
      (.table [(.text "maxLength", .number (.int 20)), (.text "type", .text "string")]) := by
    refine Schema.written_iff.2 ⟨[("maxLength", _), ("type", _)], rfl, ?_⟩
    constructor <;> exact ⟨by decide, rfl⟩
  have hword : Schema.Written { enum := some [.string "é", .null] }
      (.table [(.text "enum", .list [.text "é", .null])]) := by
    refine Schema.written_iff.2 ⟨[("enum", _)], rfl, ?_⟩
    constructor
    case enum => exact ⟨by decide, _, rfl, .cons (.string "é") (.cons .null .nil)⟩
    all_goals exact ⟨by decide, rfl⟩
  have hwords : Schema.Written
      { additional := some (.values { enum := some [.string "é", .null] }) }
      (.table [(.text "additionalProperties", .table [(.text "enum", .list [.text "é", .null])]),
        (.text "items", .null)]) := by
    refine Schema.written_iff.2 ⟨[("additionalProperties", _), ("items", _)], rfl, ?_⟩
    constructor
    case additional => exact ⟨by decide, hword⟩
    all_goals exact ⟨by decide, rfl⟩
  have hlabels : Schema.Written
      { additional := some (.values
        { additional := some (.values { enum := some [.string "é", .null] }) }) }
      (.table [(.text "additionalProperties", .table [(.text "additionalProperties",
        .table [(.text "enum", .list [.text "é", .null])]), (.text "items", .null)])]) := by
    refine Schema.written_iff.2 ⟨[("additionalProperties", _)], rfl, ?_⟩
    constructor
    case additional => exact ⟨by decide, hwords⟩
    all_goals exact ⟨by decide, rfl⟩
  have hnumber : Schema.Written { type := some "integer", format := some "int64" }
      (.table [(.text "format", .text "int64"), (.text "type", .text "integer")]) := by
    refine Schema.written_iff.2 ⟨[("format", _), ("type", _)], rfl, ?_⟩
    constructor <;> exact ⟨by decide, rfl⟩
  refine ⟨[("swagger", _), ("definitions", _)], rfl, by decide, _, rfl,
    .cons ⟨rfl, ?_⟩ (.cons ⟨rfl, ?_⟩ .nil)⟩
  · refine Schema.written_iff.2 ⟨[("required", _), ("properties", _), ("description", _),
      ("type", _)], rfl, ?_⟩
    constructor
    case required => exact ⟨by decide, _, rfl, .cons rfl .nil⟩
    case properties =>
      exact ⟨by decide, _, rfl,
        .cons ⟨rfl, hname⟩ (.cons ⟨rfl, href _⟩ (.cons ⟨rfl, hlabels⟩ .nil))⟩
    all_goals exact ⟨by decide, rfl⟩
  · refine Schema.written_iff.2 ⟨[("type", _), ("allOf", _)], rfl, ?_⟩
    constructor
    case allOf =>
      refine ⟨by decide, _, rfl, .cons (href _) (.cons ?_ .nil)⟩
      refine Schema.written_iff.2 ⟨[("items", _), ("additionalProperties", _), ("type", _)], rfl, ?_⟩
      constructor
      case items => exact ⟨by decide, hnumber⟩
      all_goals exact ⟨by decide, rfl⟩
    all_goals exact ⟨by decide, rfl⟩

/-- A document with every keyword, references, and rules inside rules, in a text with blanks, escapes
and other names. -/
theorem reading_undoes_writing_shop :
    shopDocument.Distinct ∧ shopDocument.Written shopItem ∧ Json.Spells shopText shopItem
    ∧ Document.ofJson? shopText = some shopDocument := by
  have hspells : Json.Spells shopText shopItem := by
    refine Json.spells_of_isTextOf rfl ?_
    -- Line by line, as long literals are slow to take apart.
    rw [shopText, String.toList_intercalate]
    decide +kernel
  refine ⟨shopDocument_distinct, shopDocument_written, hspells, ?_⟩
  exact reading_undoes_writing shopDocument_distinct shopDocument_written hspells (by decide)

end Document
end SchemaTypes
