import SchemaTypes.Assoc
import SchemaTypes.Json.Reader
import SchemaTypes.Schema

/-! Schemas and documents from written values, and from JSON text. -/
namespace SchemaTypes

/-- The keyword a key names, `some none` for any other name. A natural number counts the
keywords. -/
def Keyword.ofKey? : Item → Option (Option Keyword)
  | .text name => some (ofName? name)
  | .number (.int n) => if 0 ≤ n then some all[n.toNat]? else none
  | _ => none

/-- An optional value: `null` is an absent one. -/
def Item.optional? {α : Type} (read : Item → Option α) (item : Item) : Option (Option α) :=
  match item with
  | .null => some none
  | item => (read item).map some

namespace Schema

mutual
/-- A schema is a table of keywords, or the list of all their values. -/
def ofItem? : Item → Option Schema
  | .table entries => ofEntries? [] {} entries
  | .list items => ofValues? {} Keyword.all items
  | _ => none

/-- Fills `schema` in. A keyword outside `seen` may come once, other names are passed over. -/
def ofEntries? (seen : List Keyword) (schema : Schema) : List (Item × Item) → Option Schema
  | [] => some schema
  | (key, value) :: rest =>
    match Keyword.ofKey? key with
    | none => none
    | some none => ofEntries? seen schema rest
    | some (some keyword) =>
      if keyword ∈ seen then none
      else
        match set? schema keyword value with
        | none => none
        | some schema => ofEntries? (keyword :: seen) schema rest

def ofValues? (schema : Schema) : List Keyword → List Item → Option Schema
  | [], [] => some schema
  | keyword :: keywords, value :: rest =>
    match set? schema keyword value with
    | none => none
    | some schema => ofValues? schema keywords rest
  | _, _ => none

def set? (schema : Schema) (keyword : Keyword) (value : Item) : Option Schema :=
  match keyword with
  | .ref => (value.optional? Item.string?).map fun x => { schema with ref := x }
  | .type => (value.optional? Item.string?).map fun x => { schema with type := x }
  | .format => (value.optional? Item.string?).map fun x => { schema with format := x }
  | .enum => (value.optional? Item.jsons?).map fun x => { schema with enum := x }
  | .description => (value.optional? Item.string?).map fun x => { schema with description := x }
  | .required => (value.optional? Item.strings?).map fun x => { schema with required := x }
  | .properties =>
    match value with
    | .null => some { schema with properties := none }
    | .table entries =>
      (ofProperties? entries).map fun x => { schema with properties := some (Assoc.ofList x) }
    | _ => none
  | .allOf =>
    match value with
    | .null => some { schema with allOf := none }
    | .list items => (ofItems? items).map fun x => { schema with allOf := some x }
    | _ => none
  | .items =>
    match value with
    | .null => some { schema with items := none }
    | value => (ofItem? value).map fun x => { schema with items := some x }
  | .additional =>
    match value with
    | .null => some { schema with additional := none }
    | .bool any => some { schema with additional := some (.allowed any) }
    | value =>
      if value.isReadable then
        (ofItem? value).map fun x => { schema with additional := some (.values x) }
      else none

def ofProperties? : List (Item × Item) → Option (List (String × Schema))
  | [] => some []
  | (key, value) :: rest => do
    return (← key.string?, ← ofItem? value) :: (← ofProperties? rest)

def ofItems? : List Item → Option (List Schema)
  | [] => some []
  | item :: rest => do return (← ofItem? item) :: (← ofItems? rest)
end

end Schema

namespace Document

/-- A key with the text `definitions`, `some false` for any other name. -/
def isDefinitions? : Item → Option Bool
  | .text name => some (name == "definitions")
  | .number (.int n) => some (n == 0)
  | _ => none

def definitions? (item : Item) : Option (Option (List (String × Schema))) :=
  match item with
  | .null => some none
  | .table entries => (Schema.ofProperties? entries).map fun x => some (Assoc.ofList x)
  | _ => none

/-- A document is a table, or the list of its only value. -/
def ofItem? : Item → Option Document
  | .table entries => do
    let marks ← entries.mapM fun entry => isDefinitions? entry.1
    match (entries.zip marks).filter (·.2) with
    | [] => return {}
    | [(entry, _)] => return ⟨← definitions? entry.2⟩
    | _ => none
  | .list [item] => do return ⟨← definitions? item⟩
  | _ => none

end Document

def Schema.ofJson? (text : String) : Option Schema := do ofItem? (← Json.item? text)

def Document.ofJson? (text : String) : Option Document := do ofItem? (← Json.item? text)

end SchemaTypes
