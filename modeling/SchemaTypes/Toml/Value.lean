import SchemaTypes.Assoc

/-! TOML values and tables. -/
namespace SchemaTypes.Toml

/-- How a table came to be, which decides what may still be added to it. -/
inductive Origin where
  /-- A header of its own. -/
  | header
  /-- The header of a table inside it. -/
  | implied
  /-- A dotted key. -/
  | dotted
  /-- Written in braces: complete. -/
  | inline
deriving DecidableEq, Repr

inductive Value where
  | string (text : String)
  /-- A number, a boolean or a date. -/
  | scalar (text : String)
  | array (items : List Value)
  | table (origin : Origin) (entries : List (String × Value))
deriving Repr

abbrev Entries := List (String × Value)

/-- Adds a value under a dotted key. Only tables made by dotted keys are entered, and nothing is
replaced. -/
def insert? (value : Value) : List String → Entries → Option Entries
  | [], _ => none
  | [name], entries =>
    if (Assoc.find? name entries).isSome then none else some (entries ++ [(name, value)])
  | name :: rest, entries =>
    match Assoc.find? name entries with
    | none => do
      let inner ← insert? value rest []
      return entries ++ [(name, .table .dotted inner)]
    | some (.table .dotted inner) => do
      let inner ← insert? value rest inner
      return Assoc.put name (.table .dotted inner) entries
    | some _ => none

/-- Opens the table of a header. A table has one header at most; one that is implied by the headers
of its own tables may still get it. -/
def open? : List String → Entries → Option Entries
  | [], _ => none
  | [name], entries =>
    match Assoc.find? name entries with
    | none => some (entries ++ [(name, .table .header [])])
    | some (.table .implied inner) => some (Assoc.put name (.table .header inner) entries)
    | some _ => none
  | name :: rest, entries =>
    match Assoc.find? name entries with
    | none => do
      let inner ← open? rest []
      return entries ++ [(name, .table .implied inner)]
    | some (.table .inline _) => none
    | some (.table origin inner) => do
      let inner ← open? rest inner
      return Assoc.put name (.table origin inner) entries
    | some _ => none

/-- Changes the table that a header opened. -/
def update? (change : Entries → Option Entries) : List String → Entries → Option Entries
  | [], entries => change entries
  | name :: rest, entries =>
    match Assoc.find? name entries with
    | some (.table origin inner) => do
      let inner ← update? change rest inner
      return Assoc.put name (.table origin inner) entries
    | _ => none

end SchemaTypes.Toml
