import SchemaTypes.Yaml.Scan

/-! The tree of a YAML document. -/
namespace SchemaTypes.Yaml

/-- What may stand in front of a node: the number of its anchor, and its tag. -/
structure Properties where
  anchor : Option Nat := none
  tag : Option Tag := none
deriving DecidableEq, Repr

inductive Node where
  | scalar (properties : Properties) (text : String) (plain : Bool)
  | list (properties : Properties) (items : List Node)
  | table (properties : Properties) (entries : List (Node × Node))
  /-- Stands for the node with this anchor number. -/
  | alias (anchor : Nat)

/-- What is known in the middle of a document. -/
structure Parsing where
  tokens : List Token
  /-- The anchor names so far with their numbers, the last one first. -/
  anchors : List (String × Nat) := []
  handles : TagHandles

namespace Parsing

def rest (p : Parsing) : Parsing := { p with tokens := p.tokens.drop 1 }

def head? (p : Parsing) : Option Token := p.tokens.head?

/-- Gives a name the number of different names there were before. -/
def declare (p : Parsing) (name : String) : Nat × Parsing :=
  let number := p.anchors.length
  (number, { p with anchors := (name, number) :: p.anchors.filter (·.1 != name) })

def anchor (p : Parsing) : Option Nat × Parsing :=
  match p.head? with
  | some (.anchor name) =>
    let (number, p) := p.rest.declare name
    (some number, p)
  | _ => (none, p)

def tag? (p : Parsing) : Option (Option Tag × Parsing) :=
  match p.head? with
  | some (.tag tag) => (tag.resolve? p.handles).map fun tag => (some tag, p.rest)
  | _ => some (none, p)

/-- An anchor and a tag, in either order, each of them optional. -/
def properties? (p : Parsing) : Option (Properties × Parsing) :=
  match p.head? with
  | some (.tag _) => do
    let (tag, p) ← p.tag?
    let (anchor, p) := p.anchor
    return (⟨anchor, tag⟩, p)
  | _ => do
    let (anchor, p) := p.anchor
    let (tag, p) ← p.tag?
    return (⟨anchor, tag⟩, p)

end Parsing

/-- The empty node that stands where nothing is written. -/
def Node.empty : Node := .scalar {} "" true

/-- Tokens in front of which an entry of a block is empty. -/
def endsBlockEntry : Option Token → Bool
  | some .key | some .value | some .blockEnd => true
  | _ => false

def endsBlockItem : Option Token → Bool
  | some .entry | some .blockEnd => true
  | _ => false

mutual
/-- A node. `block` allows collections without brackets, `dashes` allows a list whose dashes stand
in the column of its parent's keys. -/
def node? (block dashes : Bool) : Nat → Parsing → Option (Node × Parsing)
  | 0, _ => none
  | fuel + 1, p =>
    match p.head? with
    | some (.alias name) => (p.anchors.lookup name).map fun number => (.alias number, p.rest)
    | _ => do
      let (properties, p) ← p.properties?
      match p.head? with
      | some (.scalar text plain) =>
        return (.scalar properties text plain, p.rest)
      | some .flowSequenceStart =>
        let (items, p) ← flowItems? true [] fuel p.rest
        return (.list properties items, p)
      | some .flowMappingStart =>
        let (entries, p) ← flowEntries? true [] fuel p.rest
        return (.table properties entries, p)
      | some .entry =>
        if dashes then
          let (items, p) ← dashItems? [] fuel p
          return (.list properties items, p)
        else if properties == {} then none
        else return (.scalar properties "" true, p)
      | some .blockSequenceStart =>
        if block then
          let (items, p) ← blockItems? [] fuel p.rest
          return (.list properties items, p)
        else if properties == {} then none
        else return (.scalar properties "" true, p)
      | some .blockMappingStart =>
        if block then
          let (entries, p) ← blockEntries? [] fuel p.rest
          return (.table properties entries, p)
        else if properties == {} then none
        else return (.scalar properties "" true, p)
      | _ =>
        if properties == {} then none
        else return (.scalar properties "" true, p)

/-- The items of a list in a block of its own, up to the end of the block. -/
def blockItems? (acc : List Node) : Nat → Parsing → Option (List Node × Parsing)
  | 0, _ => none
  | fuel + 1, p =>
    match p.head? with
    | some .entry =>
      if endsBlockItem p.rest.head? then blockItems? (.empty :: acc) fuel p.rest
      else do
        let (item, p) ← node? true false fuel p.rest
        blockItems? (item :: acc) fuel p
    | some .blockEnd => some (acc.reverse, p.rest)
    | _ => none

/-- The items of a list in the block of its parent. -/
def dashItems? (acc : List Node) : Nat → Parsing → Option (List Node × Parsing)
  | 0, _ => none
  | fuel + 1, p =>
    match p.head? with
    | some .entry =>
      if endsBlockItem p.rest.head? || endsBlockEntry p.rest.head? then
        dashItems? (.empty :: acc) fuel p.rest
      else do
        let (item, p) ← node? true false fuel p.rest
        dashItems? (item :: acc) fuel p
    | _ => some (acc.reverse, p)

/-- The entries of a table in a block, up to the end of the block. -/
def blockEntries? (acc : List (Node × Node)) : Nat → Parsing → Option (List (Node × Node) × Parsing)
  | 0, _ => none
  | fuel + 1, p =>
    match p.head? with
    | some .key => do
      let (key, p) ← if endsBlockEntry p.rest.head? then some (.empty, p.rest)
        else node? true true fuel p.rest
      let (value, p) ← blockValue? fuel p
      blockEntries? ((key, value) :: acc) fuel p
    | some .blockEnd => some (acc.reverse, p.rest)
    | _ => none

/-- The value of an entry, empty if there is no colon. -/
def blockValue? : Nat → Parsing → Option (Node × Parsing)
  | 0, _ => none
  | fuel + 1, p =>
    match p.head? with
    | some .value =>
      if endsBlockEntry p.rest.head? then some (.empty, p.rest) else node? true true fuel p.rest
    | _ => some (.empty, p)

/-- The items between square brackets. A key among them makes a table of one entry. -/
def flowItems? (first : Bool) (acc : List Node) : Nat → Parsing → Option (List Node × Parsing)
  | 0, _ => none
  | fuel + 1, p =>
    let item? := fun (p : Parsing) =>
      match p.head? with
      | some .flowSequenceEnd => some (acc.reverse, p.rest)
      | some .key => do
        let (entry, p) ← flowPair? fuel p.rest
        flowItems? false (.table {} [entry] :: acc) fuel p
      | _ => do
        let (item, p) ← node? false false fuel p
        flowItems? false (item :: acc) fuel p
    match first, p.head? with
    | false, some .comma => item? p.rest
    | false, some .flowSequenceEnd => item? p
    | false, _ => none
    | true, _ => item? p

/-- The one entry of a table between square brackets, from behind its key mark. -/
def flowPair? : Nat → Parsing → Option ((Node × Node) × Parsing)
  | 0, _ => none
  | fuel + 1, p => do
    let (key, p) ← match p.head? with
      | some .value | some .comma | some .flowSequenceEnd => some (Node.empty, p.rest)
      | _ => node? false false fuel p
    match p.head? with
    | some .value =>
      match p.rest.head? with
      | some .comma | some .flowSequenceEnd => return ((key, .empty), p.rest)
      | _ =>
        let (value, p) ← node? false false fuel p.rest
        return ((key, value), p)
    | _ => return ((key, .empty), p)

/-- The entries between curly brackets. -/
def flowEntries? (first : Bool) (acc : List (Node × Node)) :
    Nat → Parsing → Option (List (Node × Node) × Parsing)
  | 0, _ => none
  | fuel + 1, p =>
    let entry? := fun (p : Parsing) =>
      match p.head? with
      | some .flowMappingEnd => some (acc.reverse, p.rest)
      | some .key => do
        let (key, p) ← match p.rest.head? with
          | some .value | some .comma | some .flowMappingEnd => some (Node.empty, p.rest)
          | _ => node? false false fuel p.rest
        let (value, p) ← match p.head? with
          | some .value =>
            match p.rest.head? with
            | some .comma | some .flowMappingEnd => some (Node.empty, p.rest)
            | _ => node? false false fuel p.rest
          | _ => some (.empty, p)
        flowEntries? false ((key, value) :: acc) fuel p
      | _ => do
        let (key, p) ← node? false false fuel p
        flowEntries? false ((key, .empty) :: acc) fuel p
    match first, p.head? with
    | false, some .comma => entry? p.rest
    | false, some .flowMappingEnd => entry? p
    | false, _ => none
    | true, _ => entry? p
end

/-- The directives in front of a document: at most one version, no handle twice. -/
def directives? (version : Bool) (handles : TagHandles) :
    List Token → Option (TagHandles × List Token)
  | .version major minor :: rest =>
    if !version && major == 1 && (minor == 1 || minor == 2) then directives? true handles rest
    else none
  | .tagHandle handle start :: rest =>
    if (handles.lookup handle).isSome then none
    else directives? version ((handle, start) :: handles) rest
  | tokens => some (handles ++ defaultHandles, tokens)

def isDirective : Option Token → Bool
  | some (.version _ _) | some (.tagHandle _ _) => true
  | _ => false

/-- Whether the content of a document is missing. -/
def endsDocument : Option Token → Bool
  | some .documentStart | some .documentEnd | some .streamEnd => true
  | token => isDirective token

/-- A text with one document, `some none` if it has none at all. -/
def document? (text : String) : Option (Option Node) := do
  let tokens ← tokens? text
  if tokens == [.streamEnd] then return none
  let marked := isDirective tokens.head? || tokens.head? == some .documentStart
  let (handles, tokens) ← directives? false [] tokens
  let tokens ← if marked then
      match tokens with
      | .documentStart :: rest => some rest
      | _ => none
    else some tokens
  let p : Parsing := { tokens, handles }
  let (root, p) ← if marked && endsDocument p.head? then some (.empty, p)
    else node? true false (4 * tokens.length + 4) p
  if p.tokens.dropWhile (· == .documentEnd) == [.streamEnd] then return some root else none

namespace Node

mutual
/-- The nodes with anchors, in the order in which they begin. -/
def anchored : Node → List (Nat × Node)
  | .alias _ => []
  | .scalar properties text plain => own properties (.scalar properties text plain)
  | .list properties items => own properties (.list properties items) ++ anchoredAll items
  | .table properties entries =>
    own properties (.table properties entries) ++ anchoredEntries entries

def anchoredAll : List Node → List (Nat × Node)
  | [] => []
  | item :: rest => anchored item ++ anchoredAll rest

def anchoredEntries : List (Node × Node) → List (Nat × Node)
  | [] => []
  | (key, value) :: rest => anchored key ++ anchored value ++ anchoredEntries rest

def own (properties : Properties) (node : Node) : List (Nat × Node) :=
  match properties.anchor with
  | some number => [(number, node)]
  | none => []
end

mutual
/-- The number of scalars and aliases, and of the ends of lists and tables. -/
def size : Node → Nat
  | .alias _ => 1
  | .scalar _ _ _ => 1
  | .list _ items => 2 + sizeAll items
  | .table _ entries => 2 + sizeEntries entries

def sizeAll : List Node → Nat
  | [] => 0
  | item :: rest => size item + sizeAll rest

def sizeEntries : List (Node × Node) → Nat
  | [] => 0
  | (key, value) :: rest => size key + size value + sizeEntries rest
end

end Node
end SchemaTypes.Yaml
