import SchemaTypes.Proofs.Position
import SchemaTypes.Proofs.WrittenJson
import SchemaTypes.Schema.Decode

/-! Schemas written as values: the keywords in any order, absent ones left out or `null`, other names
beside them. Reading gives back the schema that was written. -/
namespace SchemaTypes

variable {α : Type}

/-! ### Ways to write a value -/

/-- What may be absent is `null` if it is. -/
def WrittenOption (written : α → Item → Prop) : Option α → Item → Prop
  | none, item => item = .null
  | some a, item => written a item

/-- A list of values in their order. -/
def WrittenList (written : α → Item → Prop) (values : List α) (item : Item) : Prop :=
  ∃ items, item = .list items ∧ List.Forall₂ written values items

/-- Named values in their order. -/
def WrittenTable (written : α → Item → Prop) (named : List (String × α)) (item : Item) : Prop :=
  ∃ entries, item = .table entries ∧ List.Forall₂ (fun entry member =>
    member.1 = .text entry.1 ∧ written entry.2 member.2) named entries

def WrittenRule (written : α → Item → Prop) : Additional α → Item → Prop
  | .allowed any, item => item = .bool any
  | .values value, item => written value item

def WrittenText (text : String) (item : Item) : Prop := item = .text text

/-- The name stands once at most, and its value is written so. Where it does not stand, `null` has to
be written so. -/
def SaysOnce (entries : List (String × Item)) (name : String) (written : Item → Prop) : Prop :=
  (entries.map Prod.fst).count name ≤ 1 ∧ written ((entries.lookup name).getD .null)

namespace Schema

/-- Entries that say every keyword under its name, given the ways to write the children. They stand
in any order and among any other names. -/
structure Says (schema : Schema) (children : Keywords (Item → Prop))
    (entries : List (String × Item)) : Prop where
  ref : SaysOnce entries "$ref" (WrittenOption WrittenText schema.ref)
  type : SaysOnce entries "type" (WrittenOption WrittenText schema.type)
  format : SaysOnce entries "format" (WrittenOption WrittenText schema.format)
  enum : SaysOnce entries "enum" (WrittenOption (WrittenList Json.Written) schema.enum)
  description : SaysOnce entries "description" (WrittenOption WrittenText schema.description)
  properties : SaysOnce entries "properties"
    (WrittenOption (WrittenTable fun written => written) children.properties)
  required : SaysOnce entries "required" (WrittenOption (WrittenList WrittenText) schema.required)
  additional : SaysOnce entries "additionalProperties"
    (WrittenOption (WrittenRule fun written => written) children.additional)
  allOf : SaysOnce entries "allOf"
    (WrittenOption (WrittenList fun written => written) children.allOf)
  items : SaysOnce entries "items" (WrittenOption (fun written => written) children.items)

/-- A schema is written as a table that says its keywords. -/
def Written : Schema → Item → Prop :=
  fold fun schema children item => ∃ entries : List (String × Item),
    item = .table (entries.map fun entry => (.text entry.1, entry.2)) ∧ schema.Says children entries

theorem written_iff {schema : Schema} {item : Item} : schema.Written item ↔
    ∃ entries : List (String × Item),
      item = .table (entries.map fun entry => (.text entry.1, entry.2))
      ∧ schema.Says (schema.keywords.map Written) entries := by
  rw [Written, fold_eq]

end Schema

/-! ### Values that are read -/

namespace Item

theorem areReadable_eq (items : List Item) : areReadable items = items.all isReadable := by
  induction items with
  | nil => rfl
  | cons item rest ih => rw [areReadable, ih, List.all_cons]

theorem entriesReadable_eq (entries : List (Item × Item)) :
    entriesReadable entries = entries.all fun entry => entry.1.isReadable && entry.2.isReadable := by
  induction entries with
  | nil => rfl
  | cons entry rest ih => rw [entriesReadable, ih, List.all_cons]

theorem isReadable_of_mem_list {items : List Item} (h : (list items).isReadable = true) {item : Item}
    (hm : item ∈ items) : item.isReadable = true := by
  rw [isReadable, areReadable_eq, List.all_eq_true] at h
  exact h item hm

theorem isReadable_of_mem_table {entries : List (Item × Item)}
    (h : (table entries).isReadable = true) {entry : Item × Item} (hm : entry ∈ entries) :
    entry.2.isReadable = true := by
  rw [isReadable, entriesReadable_eq, List.all_eq_true] at h
  exact (Bool.and_eq_true_iff.1 (h entry hm)).2

end Item

namespace WrittenOption

variable {written : α → Item → Prop} {option : Option α} {item : Item}

/-- Only what is absent is written as `null`. -/
theorem eq_none (h : WrittenOption written option .null) (hw : ∀ a, ¬written a .null) :
    option = none := by
  cases option with
  | none => rfl
  | some a => exact absurd h (hw a)

theorem optional? {read : Item → Option α} (h : WrittenOption written option item)
    (hread : ∀ a ∈ option, written a item → item ≠ .null ∧ read item = some a) :
    item.optional? read = some option := by
  cases option with
  | none =>
    obtain rfl : item = .null := h
    rfl
  | some a =>
    obtain ⟨hne, hsome⟩ := hread a rfl h
    unfold Item.optional?
    split
    · contradiction
    · rw [hsome, Option.map_some]

end WrittenOption

/-! ### Schemas -/

namespace Schema

/-- What the value of a keyword says, given the ways to write the children. -/
def WrittenField (schema : Schema) (children : Keywords (Item → Prop)) (item : Item) :
    Keyword → Prop
  | .ref => WrittenOption WrittenText schema.ref item
  | .type => WrittenOption WrittenText schema.type item
  | .format => WrittenOption WrittenText schema.format item
  | .enum => WrittenOption (WrittenList Json.Written) schema.enum item
  | .description => WrittenOption WrittenText schema.description item
  | .properties => WrittenOption (WrittenTable fun written => written) children.properties item
  | .required => WrittenOption (WrittenList WrittenText) schema.required item
  | .additional => WrittenOption (WrittenRule fun written => written) children.additional item
  | .allOf => WrittenOption (WrittenList fun written => written) children.allOf item
  | .items => WrittenOption (fun written => written) children.items item

/-- The names are those of the keywords. -/
theorem Says.field {schema : Schema} {children : Keywords (Item → Prop)}
    {entries : List (String × Item)} (h : schema.Says children entries) (keyword : Keyword) :
    SaysOnce entries keyword.name fun item => schema.WrittenField children item keyword := by
  cases keyword with
  | ref => exact h.ref
  | type => exact h.type
  | format => exact h.format
  | enum => exact h.enum
  | description => exact h.description
  | properties => exact h.properties
  | required => exact h.required
  | additional => exact h.additional
  | allOf => exact h.allOf
  | items => exact h.items

/-- The schema with only the keywords that were seen so far. -/
def upTo (schema : Schema) (seen : List Keyword) : Schema where
  ref := if .ref ∈ seen then schema.ref else none
  type := if .type ∈ seen then schema.type else none
  format := if .format ∈ seen then schema.format else none
  enum := if .enum ∈ seen then schema.enum else none
  description := if .description ∈ seen then schema.description else none
  properties := if .properties ∈ seen then schema.properties else none
  required := if .required ∈ seen then schema.required else none
  additional := if .additional ∈ seen then schema.additional else none
  allOf := if .allOf ∈ seen then schema.allOf else none
  items := if .items ∈ seen then schema.items else none

/-- The ways to write a child are ways that are read back. -/
def ReadsBack (schema : Schema) : Prop :=
  ∀ item, schema.Written item → item.isReadable = true → ofItem? item = some schema

theorem not_written_null (schema : Schema) : ¬schema.Written .null := by
  rw [written_iff]
  rintro ⟨entries, h, -⟩
  cases h

theorem text?_of_written {text : Option String} {item : Item}
    (h : WrittenOption WrittenText text item) :
    item.optional? Item.string? = some text := by
  apply h.optional?
  rintro s - rfl
  exact ⟨by simp, rfl⟩

theorem jsons?_of_written {values : List Json} {item : Item}
    (h : WrittenList Json.Written values item) : item ≠ .null ∧ item.jsons? = some values := by
  obtain ⟨items, rfl, hitems⟩ := h
  refine ⟨by simp, Json.jsonList?_of_written ?_⟩
  induction hitems with
  | nil => exact .nil
  | cons head _ ih => exact .cons head ih

theorem strings?_of_written {names : List String} {item : Item}
    (h : WrittenList WrittenText names item) :
    item ≠ .null ∧ item.strings? = some names := by
  obtain ⟨items, rfl, hitems⟩ := h
  refine ⟨by simp, ?_⟩
  rw [Item.strings?]
  induction hitems with
  | nil => rfl
  | cons head _ ih =>
    subst head
    rw [List.mapM_cons, ih]
    rfl

theorem ofProperties?_of_written {properties : List (String × Schema)}
    {members : List (Item × Item)} (readable : (Item.table members).isReadable = true)
    (h : List.Forall₂ (fun entry member => member.1 = .text entry.1 ∧ entry.2.Written member.2)
      properties members) (ih : ∀ entry ∈ properties, entry.2.ReadsBack) :
    ofProperties? members = some properties := by
  induction h with
  | nil => rw [ofProperties?]
  | @cons entry member properties members head _ tail =>
    obtain ⟨hname, hwritten⟩ := head
    have hmember := ih entry List.mem_cons_self member.2 hwritten
      (Item.isReadable_of_mem_table readable List.mem_cons_self)
    have hothers : (Item.table members).isReadable = true := by
      rw [Item.isReadable, Item.entriesReadable] at readable
      exact (Bool.and_eq_true_iff.1 readable).2
    have hrest := tail hothers fun entry he => ih entry (List.mem_cons_of_mem _ he)
    obtain ⟨key, item⟩ := member
    subst hname
    rw [ofProperties?, hmember, hrest]
    rfl

theorem ofItems?_of_written {schemas : List Schema} {items : List Item}
    (readable : ∀ item ∈ items, item.isReadable = true) (h : List.Forall₂ Written schemas items)
    (ih : ∀ schema ∈ schemas, schema.ReadsBack) : ofItems? items = some schemas := by
  induction h with
  | nil => rw [ofItems?]
  | @cons schema item schemas items head _ tail =>
    have hitem := ih schema List.mem_cons_self item head (readable item List.mem_cons_self)
    have hrest := tail (fun item hi => readable item (List.mem_cons_of_mem _ hi))
      fun schema hs => ih schema (List.mem_cons_of_mem _ hs)
    rw [ofItems?, hitem, hrest]
    rfl

theorem writtenField_properties {schema : Schema} {item : Item} :
    schema.WrittenField (schema.keywords.map Written) item .properties
      ↔ WrittenOption (WrittenTable Written) schema.properties item := by
  show WrittenOption _ (schema.properties.map _) item ↔ _
  cases schema.properties with
  | none => exact Iff.rfl
  | some properties =>
    simp only [Option.map_some, WrittenOption, WrittenTable, List.forall₂_map_left_iff]

theorem writtenField_allOf {schema : Schema} {item : Item} :
    schema.WrittenField (schema.keywords.map Written) item .allOf
      ↔ WrittenOption (WrittenList Written) schema.allOf item := by
  show WrittenOption _ (schema.allOf.map _) item ↔ _
  cases schema.allOf with
  | none => exact Iff.rfl
  | some members =>
    simp only [Option.map_some, WrittenOption, WrittenList, List.forall₂_map_left_iff]

theorem writtenField_items {schema : Schema} {item : Item} :
    schema.WrittenField (schema.keywords.map Written) item .items
      ↔ WrittenOption Written schema.items item := by
  show WrittenOption _ (schema.items.map _) item ↔ _
  cases schema.items <;> exact Iff.rfl

theorem writtenField_additional {schema : Schema} {item : Item} :
    schema.WrittenField (schema.keywords.map Written) item .additional
      ↔ WrittenOption (WrittenRule Written) schema.additional item := by
  show WrittenOption _ (schema.additional.map _) item ↔ _
  rcases schema.additional with _ | _ | _ <;> exact Iff.rfl

/-- The schemas of a table, by their names. -/
def named? : Item → Option (List (String × Schema))
  | .table members => (ofProperties? members).map Assoc.ofList
  | _ => none

def listed? : Item → Option (List Schema)
  | .list items => ofItems? items
  | _ => none

/-- What further properties may be: anything or nothing, or the values of a schema. -/
def rule? : Item → Option (Additional Schema)
  | .bool any => some (.allowed any)
  | item => if item.isReadable then (ofItem? item).map .values else none

theorem set?_properties (schema : Schema) (item : Item) : set? schema .properties item
    = (item.optional? named?).map fun found => { schema with properties := found } := by
  unfold set?
  cases item with
  | table members => cases hread : ofProperties? members <;> simp [Item.optional?, named?, hread]
  | _ => rfl

theorem set?_allOf (schema : Schema) (item : Item) : set? schema .allOf item
    = (item.optional? listed?).map fun found => { schema with allOf := found } := by
  unfold set?
  cases item with
  | list items => cases hread : ofItems? items <;> simp [Item.optional?, listed?, hread]
  | _ => rfl

theorem set?_items (schema : Schema) (item : Item) : set? schema .items item
    = (item.optional? ofItem?).map fun found => { schema with items := found } := by
  unfold set?
  split
  · rfl
  · cases hread : ofItem? item <;> simp [Item.optional?, hread]

theorem set?_additional (schema : Schema) (item : Item) : set? schema .additional item
    = (item.optional? rule?).map fun found => { schema with additional := found } := by
  unfold set?
  split
  · rfl
  · rfl
  · cases hread : ofItem? item <;> simp [Item.optional?, rule?, hread]

theorem ReadsBack.ofItem? {schema : Schema} (h : schema.ReadsBack) {item : Item}
    (readable : item.isReadable = true) (written : schema.Written item) :
    item ≠ .null ∧ Schema.ofItem? item = some schema := by
  refine ⟨?_, h item written readable⟩
  rintro rfl
  exact not_written_null schema written

theorem named?_of_written {schemas : List (String × Schema)} {item : Item}
    (names : (Assoc.keys schemas).Nodup) (ih : ∀ entry ∈ schemas, entry.2.ReadsBack)
    (readable : item.isReadable = true) (h : WrittenTable Written schemas item) :
    item ≠ .null ∧ named? item = some schemas := by
  obtain ⟨members, rfl, hmembers⟩ := h
  refine ⟨by simp, ?_⟩
  rw [named?, ofProperties?_of_written readable hmembers ih, Option.map_some,
    Assoc.ofList_of_nodup names]

theorem listed?_of_written {schemas : List Schema} {item : Item}
    (ih : ∀ schema ∈ schemas, schema.ReadsBack) (readable : item.isReadable = true)
    (h : WrittenList Written schemas item) : item ≠ .null ∧ listed? item = some schemas := by
  obtain ⟨items, rfl, hitems⟩ := h
  exact ⟨by simp, ofItems?_of_written (fun item => Item.isReadable_of_mem_list readable) hitems ih⟩

theorem rule?_of_written {rule : Additional Schema} {item : Item}
    (ih : ∀ schema ∈ rule.children, schema.ReadsBack) (readable : item.isReadable = true)
    (h : WrittenRule Written rule item) : item ≠ .null ∧ rule? item = some rule := by
  cases rule with
  | allowed any =>
    obtain rfl : item = .bool any := h
    exact ⟨by simp, rfl⟩
  | values schema =>
    obtain ⟨hne, hread⟩ := (ih schema (by simp [Additional.children])).ofItem? readable h
    obtain ⟨entries, rfl, -⟩ := written_iff.1 h
    refine ⟨hne, ?_⟩
    rw [rule?, if_pos readable, hread]
    · rfl
    · simp

/-- The value of a keyword fills it in, whatever was filled in before. -/
theorem set?_of_written {schema : Schema} (names : (Assoc.keys (schema.properties.getD [])).Nodup)
    (ih : ∀ child ∈ schema.keywords.children, child.ReadsBack) {keyword : Keyword} {item : Item}
    (readable : item.isReadable = true)
    (h : schema.WrittenField (schema.keywords.map Written) item keyword) (seen : List Keyword) :
    set? (schema.upTo seen) keyword item = some (schema.upTo (keyword :: seen)) := by
  cases keyword with
  | ref | type | format | description =>
    unfold set?
    rw [text?_of_written h]
    simp [upTo]
  | enum =>
    unfold set?
    rw [WrittenOption.optional? h fun _ _ => jsons?_of_written]
    simp [upTo]
  | required =>
    unfold set?
    rw [WrittenOption.optional? h fun _ _ => strings?_of_written]
    simp [upTo]
  | properties =>
    have hread : ∀ properties ∈ schema.properties, WrittenTable Written properties item →
        item ≠ .null ∧ named? item = some properties := by
      intro properties hp
      obtain hp : schema.properties = some properties := hp
      rw [hp, Option.getD_some] at names
      apply named?_of_written names _ readable
      intro entry he
      have hentry : entry ∈ schema.keywords.properties.getD [] := by simp [keywords, hp, he]
      exact ih entry.2 (Keywords.mem_children_of_mem_properties hentry)
    rw [set?_properties, (writtenField_properties.1 h).optional? hread]
    simp [upTo]
  | allOf =>
    have hread : ∀ schemas ∈ schema.allOf, WrittenList Written schemas item →
        item ≠ .null ∧ listed? item = some schemas := by
      intro schemas hs
      obtain hs : schema.allOf = some schemas := hs
      apply listed?_of_written _ readable
      intro member hm
      exact ih member (by simp [keywords, Keywords.children, hs, hm])
    rw [set?_allOf, (writtenField_allOf.1 h).optional? hread]
    simp [upTo]
  | items =>
    have hread : ∀ child ∈ schema.items, child.Written item →
        item ≠ .null ∧ ofItem? item = some child := by
      intro child hc
      obtain hc : schema.items = some child := hc
      exact (ih child (by simp [keywords, Keywords.children, hc])).ofItem? readable
    rw [set?_items, (writtenField_items.1 h).optional? hread]
    simp [upTo]
  | additional =>
    have hread : ∀ rule ∈ schema.additional, WrittenRule Written rule item →
        item ≠ .null ∧ rule? item = some rule := by
      intro rule hr
      obtain hr : schema.additional = some rule := hr
      apply rule?_of_written _ readable
      intro child hc
      exact ih child (by simp [keywords, Keywords.children, hr, hc])
    rw [set?_additional, (writtenField_additional.1 h).optional? hread]
    simp [upTo]

/-- Once all keywords are seen that are not `null`, the schema is complete. -/
theorem upTo_eq_self {schema : Schema} {seen : List Keyword}
    (h : ∀ keyword ∉ seen, schema.WrittenField (schema.keywords.map Written) .null keyword) :
    schema.upTo seen = schema := by
  have htext (text : Option String)
      (h : WrittenOption WrittenText text .null) : text = none :=
    h.eq_none fun _ h => by cases h
  have hlist {α : Type} {written : α → Item → Prop} (values : List α) :
      ¬WrittenList written values .null := by
    rintro ⟨items, h, -⟩
    cases h
  have htable (properties : List (String × Schema)) : ¬WrittenTable Written properties .null := by
    rintro ⟨entries, h, -⟩
    cases h
  have hrule (rule : Additional Schema) : ¬WrittenRule Written rule .null := by
    intro h
    cases rule with
    | allowed any => cases h
    | values schema => exact not_written_null schema h
  have hkeep {β : Type} (keyword : Keyword) (value : Option β) (hn : keyword ∉ seen → value = none) :
      (if keyword ∈ seen then value else none) = value := by
    split
    · rfl
    next hs => exact (hn hs).symm
  have href := hkeep .ref schema.ref fun hs => htext _ (h .ref hs)
  have htype := hkeep .type schema.type fun hs => htext _ (h .type hs)
  have hformat := hkeep .format schema.format fun hs => htext _ (h .format hs)
  have henum := hkeep .enum schema.enum fun hs => (h .enum hs).eq_none hlist
  have hdescription := hkeep .description schema.description fun hs => htext _ (h .description hs)
  have hproperties := hkeep .properties schema.properties fun hs =>
    (writtenField_properties.1 (h .properties hs)).eq_none htable
  have hrequired := hkeep .required schema.required fun hs => (h .required hs).eq_none hlist
  have hadditional := hkeep .additional schema.additional fun hs =>
    (writtenField_additional.1 (h .additional hs)).eq_none hrule
  have hallOf := hkeep .allOf schema.allOf fun hs =>
    (writtenField_allOf.1 (h .allOf hs)).eq_none hlist
  have hitems := hkeep .items schema.items fun hs =>
    (writtenField_items.1 (h .items hs)).eq_none not_written_null
  rw [upTo, href, htype, hformat, henum, hdescription, hproperties, hrequired, hadditional, hallOf,
    hitems]
  cases schema
  rfl

/-- The entries say the keywords of the schema that were not seen yet, each at most once. -/
structure SaysRest (schema : Schema) (seen : List Keyword) (entries : List (String × Item)) :
    Prop where
  once : ∀ keyword : Keyword, (Assoc.keys entries).count keyword.name ≤ 1
  fresh : ∀ keyword ∈ seen, keyword.name ∉ Assoc.keys entries
  fields : ∀ keyword ∉ seen, schema.WrittenField (schema.keywords.map Written)
    ((Assoc.find? keyword.name entries).getD .null) keyword

namespace SaysRest

variable {schema : Schema} {seen : List Keyword} {rest : List (String × Item)} {item : Item}

theorem count_le {name : String} (h : schema.SaysRest seen ((name, item) :: rest))
    (keyword : Keyword) : (Assoc.keys rest).count keyword.name ≤ 1 := by
  have hcount := h.once keyword
  rw [Assoc.keys_cons, List.count_cons] at hcount
  omega

theorem skip {name : String} (h : schema.SaysRest seen ((name, item) :: rest))
    (hname : Keyword.ofName? name = none) : schema.SaysRest seen rest := by
  have hother (keyword : Keyword) : keyword.name ≠ name := by
    intro heq
    rw [Keyword.ofName?_eq_some_iff.2 heq] at hname
    cases hname
  constructor
  · exact h.count_le
  · intro keyword hs hm
    exact h.fresh keyword hs (List.mem_cons_of_mem _ hm)
  · intro keyword hs
    have hfield := h.fields keyword hs
    rwa [Assoc.find?_cons, if_neg (hother keyword)] at hfield

theorem take {keyword : Keyword} (h : schema.SaysRest seen ((keyword.name, item) :: rest)) :
    keyword ∉ seen ∧ schema.WrittenField (schema.keywords.map Written) item keyword
      ∧ schema.SaysRest (keyword :: seen) rest := by
  have hnew : keyword ∉ seen := fun hs => h.fresh keyword hs List.mem_cons_self
  have hfield := h.fields keyword hnew
  rw [Assoc.find?_cons, if_pos rfl, Option.getD_some] at hfield
  have hgone : keyword.name ∉ Assoc.keys rest := by
    have hcount := h.once keyword
    rw [Assoc.keys_cons, List.count_cons_self] at hcount
    exact List.count_eq_zero.1 (by omega)
  refine ⟨hnew, hfield, h.count_le, ?_, ?_⟩
  · intro other hs hm
    rcases List.mem_cons.1 hs with rfl | hs
    · exact hgone hm
    · exact h.fresh other hs (List.mem_cons_of_mem _ hm)
  · intro other hs
    rw [List.mem_cons, not_or] at hs
    have hother := h.fields other hs.2
    have hne : other.name ≠ keyword.name := fun heq => hs.1 (Keyword.name_inj heq)
    rwa [Assoc.find?_cons, if_neg hne] at hother

end SaysRest

/-- The entries fill in what they say, in their order. -/
theorem ofEntries?_of_saysRest {schema : Schema}
    (names : (Assoc.keys (schema.properties.getD [])).Nodup)
    (ih : ∀ child ∈ schema.keywords.children, child.ReadsBack) {entries : List (String × Item)}
    (readable : ∀ entry ∈ entries, entry.2.isReadable = true) {seen : List Keyword}
    (h : schema.SaysRest seen entries) :
    ofEntries? seen (schema.upTo seen) (entries.map fun entry => (.text entry.1, entry.2))
      = some schema := by
  induction entries generalizing seen with
  | nil =>
    rw [List.map_nil, ofEntries?, upTo_eq_self h.fields]
  | cons entry rest tail =>
    obtain ⟨name, item⟩ := entry
    have hrest : ∀ entry ∈ rest, entry.2.isReadable = true := fun entry he =>
      readable entry (List.mem_cons_of_mem _ he)
    rw [List.map_cons, ofEntries?]
    cases hname : Keyword.ofName? name with
    | none =>
      have hkey : Keyword.ofKey? (.text name) = some none := congrArg some hname
      simp only [hkey]
      exact tail hrest (h.skip hname)
    | some keyword =>
      have hkey : Keyword.ofKey? (.text name) = some (some keyword) := congrArg some hname
      obtain rfl := Keyword.ofName?_eq_some_iff.1 hname
      obtain ⟨hnew, hfield, hmore⟩ := h.take
      have hset := set?_of_written names ih (readable _ List.mem_cons_self) hfield seen
      simp only [hkey, if_neg hnew, hset]
      exact tail hrest hmore

/-- A written schema is read back. -/
theorem ofItem?_of_written {schema : Schema} (h : schema.Distinct) : schema.ReadsBack := by
  induction schema using Schema.induction with
  | step schema ih =>
    obtain ⟨names, below⟩ := h
    have hchildren : ∀ child ∈ schema.keywords.children, child.ReadsBack := fun child hc =>
      ih child hc (below child hc)
    intro item hwritten readable
    obtain ⟨entries, rfl, hentries⟩ := written_iff.1 hwritten
    have hreadable : ∀ entry ∈ entries, entry.2.isReadable = true := fun entry he =>
      Item.isReadable_of_mem_table readable (List.mem_map_of_mem he)
    have hempty : ({} : Schema) = schema.upTo [] := by simp [upTo]
    have hsays : schema.SaysRest [] entries :=
      ⟨fun keyword => (hentries.field keyword).1, by simp,
        fun keyword _ => (hentries.field keyword).2⟩
    rw [ofItem?, hempty]
    exact ofEntries?_of_saysRest names hchildren hreadable hsays

end Schema

end SchemaTypes
