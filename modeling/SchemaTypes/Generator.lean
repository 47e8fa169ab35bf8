import SchemaTypes.Declaration
import SchemaTypes.Formatter
import SchemaTypes.Node.Mapping
import SchemaTypes.Node.Types
import SchemaTypes.Schema.Decode
import SchemaTypes.Schema.Yaml

/-! From a document to the source of its interface. -/
namespace SchemaTypes

/-- The name of the interface, and the text in front of it. -/
structure GenerateOptions where
  container : String := "definitions"
  banner : String := Declaration.defaultBanner
deriving DecidableEq, Repr

namespace GenerateOptions

/-- The position of an option among the options that are written as a list. -/
def index? : Item → Option (Option Nat)
  | .text "container_name" => some (some 0)
  | .text "banner" => some (some 1)
  | .text _ => some none
  | _ => none

def set? (options : GenerateOptions) (index : Nat) (value : String) : GenerateOptions :=
  if index = 0 then { options with container := value } else { options with banner := value }

def ofEntries? (seen : List Nat) (options : GenerateOptions) :
    List (Item × Item) → Option GenerateOptions
  | [] => some options
  | (key, value) :: rest => do
    match ← index? key with
    | none => ofEntries? seen options rest
    | some index =>
      if index ∈ seen then none
      else ofEntries? (index :: seen) (options.set? index (← value.string?)) rest

/-- Options are a table, or a list of the first values; what is left out has its default. -/
def ofItem? : Item → Option GenerateOptions
  | .table entries => ofEntries? [] {} entries
  | .list [] => some {}
  | .list [container] => do return { container := ← container.string? }
  | .list [container, banner] => do
    return { container := ← container.string?, banner := ← banner.string? }
  | _ => none

def ofJson? (text : String) : Option GenerateOptions := do ofItem? (← Json.item? text)

end GenerateOptions

inductive GenerateError where
  | missingDefinitions
  | invalidJson
  | invalidYaml
  /-- The hook failed with this message. -/
  | mapper (message : String)
  /-- A definition is left without a type. -/
  | unresolved (name : String)
  | format (error : FormatError)
deriving DecidableEq, Repr

def GenerateError.message : GenerateError → String
  | .missingDefinitions =>
    "definitions object missing from schema "
      ++ "(https://swagger.io/specification/v2/#definitions-object)"
  | .invalidJson => "failed to parse JSON document"
  | .invalidYaml => "failed to parse YAML document"
  | .mapper message => message
  | .unresolved name => "definition '" ++ name ++ "' could not be resolved to a type"
  | .format error => error.message

/-- Steps of a run: they may fail, change the state of the hooks, and give notices. -/
abbrev Generating (σ : Type) := ExceptT GenerateError (StateT σ Noted)

/-- Turns documents into interfaces. The hooks share a state of type `σ`. -/
structure Generator (σ : Type) where
  options : GenerateOptions := {}
  mapper : Option (Mapper σ) := none
  formatter : Formatter σ := .identity

namespace Generator

variable {σ : Type}

/-- A step of the hook, with its message as the error of the run. -/
def asking {α : Type} (step : Asking σ α) : Generating σ α :=
  ExceptT.mk do
    match ← step.run with
    | .ok a => return .ok a
    | .error message => return .error (.mapper message)

def formatting {α : Type} (step : ExceptT FormatError (StateM σ) α) : Generating σ α :=
  ExceptT.mk fun state =>
    match (step.run state : Except FormatError α × σ) with
    | (.ok a, state) => pure (.ok a, state)
    | (.error error, state) => pure (.error (.format error), state)

/-- The passes over one definition, in order. -/
def resolve (generator : Generator σ) (node : Node) : Generating σ Node := do
  let container := generator.options.container
  let node : Node ← (Node.resolveReferences container node : Noted Node)
  let node ← match generator.mapper with
    | none => pure node
    | some mapper => asking (Node.applyMapper mapper container node)
  (Node.resolveComposites (Node.resolvePrimitives node) : Noted Node)

def resolveAll (generator : Generator σ) :
    List (String × Node) → Generating σ (List (String × Node))
  | [] => pure []
  | (name, node) :: rest => do
    let node ← generator.resolve node
    let rest ← generator.resolveAll rest
    return (name, node) :: rest

/-- The source of the interface with these definitions. -/
def sourceOf (generator : Generator σ) (definitions : List (String × Node)) :
    Generating σ String := do
  (Noted.give (.started definitions.length) : Noted Unit)
  let nodes ← generator.resolveAll definitions
  match Declaration.file nodes generator.options.container generator.options.banner with
  | .ok text => return text
  | .error name => throw (.unresolved name)

/-- The source of the interface before it is styled. -/
def source (generator : Generator σ) (document : Document) : Generating σ String := do
  let some definitions := document.definitions | throw .missingDefinitions
  generator.sourceOf (definitions.map fun (name, schema) => (name, .ofSchema schema))

def generate (generator : Generator σ) (document : Document) : Generating σ String := do
  let source ← generator.source document
  formatting (generator.formatter source .standard)

def generateJson (generator : Generator σ) (text : String) : Generating σ String :=
  match Document.ofJson? text with
  | some document => generator.generate document
  | none => throw .invalidJson

def generateYaml (generator : Generator σ) (text : String) : Generating σ String :=
  match Document.ofYaml? text with
  | some document => generator.generate document
  | none => throw .invalidYaml

end Generator
end SchemaTypes
