import SchemaTypes.Schema.Decode
import SchemaTypes.Yaml.Node
import SchemaTypes.Yaml.Plain

/-! Schemas and documents from YAML text. Where a text is expected every scalar is one; an
enumerated value and the rule for further properties are read as values of their own kinds. In every
reader `depth` is the number of collections that may still be open inside one another. -/
namespace SchemaTypes.Yaml

/-- Reading under a limit on the number of aliases that may still be followed. -/
abbrev Reading := StateT Nat Option

/-- The nodes that aliases stand for, by number. -/
abbrev Anchors := List (Nat × Node)

def ofOption {α : Type} : Option α → Reading α
  | some a => return a
  | none => failure

/-- The node itself, or the one its alias stands for. -/
def follow (anchors : Anchors) : Node → Reading Node
  | .alias number => do
    match ← get with
    | 0 => failure
    | left + 1 =>
      set left
      ofOption (anchors.lookup number)
  | node => return node

def string (anchors : Anchors) (node : Node) : Reading String := do
  match ← follow anchors node with
  | .scalar _ text _ => return text
  | _ => failure

/-- An optional value, read if it is not absent. -/
def optional {α : Type} (anchors : Anchors) (read : Node → Reading α) (node : Node) :
    Reading (Option α) := do
  match ← follow anchors node with
  | .scalar properties text plain =>
    if ← ofOption (isAbsent? properties.tag text plain) then return none
    else return some (← read (.scalar properties text plain))
  | node => return some (← read node)

/-- A key of a value as an item. A negative zero is no natural number and so names nothing. -/
def keyItem (text : String) : Item → Item
  | .number (.int 0) => if text.startsWith "-" then .null else .number (.int 0)
  | item => item

/-- A value of its own kind. With `textKeys` every key is a text. -/
def item (anchors : Anchors) (textKeys : Bool) (depth : Nat) (node : Node) : Reading Item := do
  match ← follow anchors node with
  | .scalar properties text plain => ofOption (scalarItem? properties.tag text plain)
  | .list properties items =>
    match depth with
    | 0 => failure
    | depth + 1 =>
      if properties.tag = some .own then failure
      return .list (← items.mapM (item anchors textKeys depth))
  | .table properties entries =>
    match depth with
    | 0 => failure
    | depth + 1 =>
      if properties.tag = some .own then failure
      return .table (← entries.mapM fun (key, value) => do
        let key ← if textKeys then Item.text <$> string anchors key
          else
            match ← follow anchors key with
            | .scalar properties text plain =>
              keyItem text <$> ofOption (scalarItem? properties.tag text plain)
            | key => item anchors textKeys depth key
        return (key, ← item anchors textKeys depth value))
  | .alias _ => failure

def json (anchors : Anchors) (depth : Nat) (node : Node) : Reading Json := do
  ofOption (← item anchors true depth node).json?

/-- The items of a list, and the depth below it. An empty plain scalar is an empty list. -/
def items (anchors : Anchors) (depth : Nat) (node : Node) : Reading (List Node × Nat) := do
  match ← follow anchors node, depth with
  | .list _ items, depth + 1 => return (items, depth)
  | .scalar _ "" true, _ => return ([], 0)
  | _, _ => failure

def strings (anchors : Anchors) (depth : Nat) (node : Node) : Reading (List String) := do
  let (items, _) ← items anchors depth node
  items.mapM (string anchors)

def jsons (anchors : Anchors) (depth : Nat) (node : Node) : Reading (List Json) := do
  let (items, depth) ← items anchors depth node
  items.mapM (json anchors depth)

/-- The rule for further properties: a boolean, or a schema in a value of its own kind. -/
def additional (anchors : Anchors) (depth : Nat) (node : Node) : Reading (Additional Schema) := do
  match ← item anchors false depth node with
  | .bool any => return .allowed any
  | value => Additional.values <$> ofOption (Schema.ofItem? value)

/-- Reads the entries one after the other into `schema`. A keyword outside `seen` may come once,
other names are passed over. -/
def fill (anchors : Anchors) (read : Schema → Keyword → Node → Reading Schema)
    (seen : List Keyword) (schema : Schema) : List (Node × Node) → Reading Schema
  | [] => return schema
  | (key, value) :: rest => do
    match Keyword.ofName? (← string anchors key) with
    | none => fill anchors read seen schema rest
    | some keyword =>
      if keyword ∈ seen then failure
      else fill anchors read (keyword :: seen) (← read schema keyword value) rest

mutual
/-- A schema is a table of keywords. An empty plain scalar is one without any. -/
def schema (anchors : Anchors) : (depth : Nat) → Node → Reading Schema
  | 0, node => do
    match ← follow anchors node with
    | .scalar _ "" true => return {}
    | _ => failure
  | depth + 1, node => do
    match ← follow anchors node with
    | .scalar _ "" true => return {}
    | .table _ entries =>
      let text := optional anchors (string anchors)
      let set := fun (acc : Schema) (keyword : Keyword) (value : Node) => do
        match keyword with
        | .ref => return { acc with ref := ← text value }
        | .type => return { acc with type := ← text value }
        | .format => return { acc with format := ← text value }
        | .description => return { acc with description := ← text value }
        | .enum => return { acc with enum := ← optional anchors (jsons anchors depth) value }
        | .required =>
          return { acc with required := ← optional anchors (strings anchors depth) value }
        | .additional =>
          return { acc with additional := ← optional anchors (additional anchors depth) value }
        | .items => return { acc with items := ← optional anchors (schema anchors depth) value }
        | .allOf => return { acc with allOf := ← optional anchors (schemas anchors depth) value }
        | .properties =>
          return { acc with properties := ← optional anchors (named anchors depth) value }
      fill anchors set [] {} entries
    | _ => failure

/-- A list of schemas. An empty plain scalar is an empty list. -/
def schemas (anchors : Anchors) : (depth : Nat) → Node → Reading (List Schema)
  | 0, node => do
    match ← follow anchors node with
    | .scalar _ "" true => return []
    | _ => failure
  | depth + 1, node => do
    match ← follow anchors node with
    | .scalar _ "" true => return []
    | .list _ items => items.mapM (schema anchors depth)
    | _ => failure

/-- Schemas by their names, as the properties of an object or the definitions of a document. -/
def named (anchors : Anchors) : (depth : Nat) → Node → Reading (List (String × Schema))
  | 0, node => do
    match ← follow anchors node with
    | .scalar _ "" true => return []
    | _ => failure
  | depth + 1, node => do
    match ← follow anchors node with
    | .scalar _ "" true => return []
    | .table _ entries =>
      Assoc.ofList <$> entries.mapM fun (key, value) => do
        return (← string anchors key, ← schema anchors depth value)
    | _ => failure
end

/-- Looks for the definitions among the entries; they come at most once. -/
def findDefinitions (anchors : Anchors) (depth : Nat) (found : Bool) (document : Document) :
    List (Node × Node) → Reading Document
  | [] => return document
  | (key, value) :: rest => do
    if (← string anchors key) == "definitions" then
      if found then failure
      let definitions ← optional anchors (named anchors depth) value
      findDefinitions anchors depth true ⟨definitions⟩ rest
    else findDefinitions anchors depth found document rest

/-- The number of collections that may be open inside one another. -/
def maxDepth : Nat := 128

def document (anchors : Anchors) (node : Node) : Reading Document := do
  match ← follow anchors node with
  | .scalar _ "" true => return {}
  | .table _ entries => findDefinitions anchors (maxDepth - 1) false {} entries
  | _ => failure

/-- How often aliases may be followed for every node of a document. -/
def followsPerNode : Nat := 100

end SchemaTypes.Yaml

namespace SchemaTypes

/-- A text without any node is an empty document. -/
def Document.ofYaml? (text : String) : Option Document := do
  match ← Yaml.document? text with
  | none => return {}
  | some root =>
    let limit := Yaml.followsPerNode * root.size
    (Yaml.document root.anchored.reverse root).run' limit

end SchemaTypes
