import SchemaTypes.Json.Value

/-! Values as a document gives them, before it is known what they are read as. -/
namespace SchemaTypes

/-- A written value. Entries stand in the order of the document, repeated names included. -/
inductive Item where
  | null
  | bool (value : Bool)
  | number (value : Number)
  /-- A floating-point value without a finite magnitude, which JSON writes as `null`. -/
  | notFinite
  | text (value : String)
  | list (items : List Item)
  | table (entries : List (Item × Item))
  /-- A value that may be passed over and not kept: a string with an unpaired surrogate, a number
  out of range, or a container nested too deeply. -/
  | unreadable
deriving Repr

namespace Item

mutual
/-- Whether the value can be kept as a whole. -/
def isReadable : Item → Bool
  | .list items => areReadable items
  | .table entries => entriesReadable entries
  | .unreadable => false
  | _ => true

def areReadable : List Item → Bool
  | [] => true
  | item :: rest => isReadable item && areReadable rest

def entriesReadable : List (Item × Item) → Bool
  | [] => true
  | (key, value) :: rest => isReadable key && isReadable value && entriesReadable rest
end

def string? : Item → Option String
  | .text value => some value
  | _ => none

def strings? : Item → Option (List String)
  | .list items => items.mapM string?
  | _ => none

mutual
/-- The value as JSON; names must be texts. -/
def json? : Item → Option Json
  | .null | .notFinite => some .null
  | .bool value => some (.bool value)
  | .number value => some (.number value)
  | .text value => some (.string value)
  | .list items => (jsonList? items).map .array
  | .table entries => (jsonEntries? entries).map Json.ofMembers
  | .unreadable => none

def jsonList? : List Item → Option (List Json)
  | [] => some []
  | item :: rest => do return (← json? item) :: (← jsonList? rest)

def jsonEntries? : List (Item × Item) → Option (List (String × Json))
  | [] => some []
  | (key, value) :: rest => do
    return (← key.string?, ← json? value) :: (← jsonEntries? rest)
end

def jsons? : Item → Option (List Json)
  | .list items => jsonList? items
  | _ => none

end Item
end SchemaTypes
