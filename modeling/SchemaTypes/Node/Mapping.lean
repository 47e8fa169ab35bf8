import SchemaTypes.Node.References
import SchemaTypes.Schema.Decode

/-! Letting a hook decide the type, the optionality and the description of properties. -/
namespace SchemaTypes

/-- What the text of a type is read as. -/
inductive Fragment where
  | declared (type : String)
  | schema (schema : Schema)
  /-- Text of the target language. -/
  | verbatim (text : String)

/-- A known type, else a schema in JSON, else text that is kept as it is. -/
def Fragment.ofText (text : String) : Fragment :=
  let trimmed := Text.trim text
  if Primitive.isKnownType trimmed then .declared trimmed
  else if trimmed.startsWith "\x7b" then
    match Schema.ofJson? trimmed with
    | some parsed => .schema parsed
    | none => .verbatim text
  else .verbatim text

/-- What the hook is told about a property. -/
structure PropertyContext where
  type : Option String
  optional : Bool
  description : Option String
deriving DecidableEq, Repr

/-- What the hook answers. The type is a known type, a schema in JSON, or text of the target
language. -/
structure PropertyMapping where
  type : Option String
  optional : Bool
  description : Option String
deriving DecidableEq, Repr

def PropertyMapping.ofContext (context : PropertyContext) : PropertyMapping :=
  ⟨context.type, context.optional, context.description⟩

/-- Steps that keep a state, may fail with a message, and give notices. -/
abbrev Asking (σ : Type) := ExceptT String (StateT σ Noted)

/-- A hook asked once for each property. Its answers may depend on what it was asked before. -/
abbrev Mapper (σ : Type) := SchemaNode → PropertyContext → ExceptT String (StateM σ) PropertyMapping

namespace Mapper

variable {σ : Type}

/-- The hook that leaves every property as it is. -/
def identity : Mapper σ := fun _ context => pure (.ofContext context)

def ask (mapper : Mapper σ) (schema : SchemaNode) (context : PropertyContext) :
    Asking σ PropertyMapping :=
  fun state => pure (mapper schema context state)

end Mapper

namespace Node

variable {σ : Type}

def context (required : RequiredSet) (name : String) (schema : SchemaNode) : PropertyContext :=
  ⟨schema.type, !required.contains name, schema.description⟩

/-- The property that an answer leaves: the same schema if the type is the one asked about. -/
def answered (container : String) (schema : SchemaNode) (mapping : PropertyMapping) : Noted Node :=
  if mapping.type = schema.type then
    pure (.pending { schema with description := mapping.description })
  else
    match mapping.type.map Fragment.ofText with
    | none => pure (.pending { schema with type := none, description := mapping.description })
    | some (.declared type) =>
      pure (.pending { schema with type := some type, description := mapping.description })
    | some (.schema fragment) =>
      resolveReferences container
        (ofSchema { fragment with description := mapping.description })
    | some (.verbatim text) => pure (.resolved (.verbatim text))

/-- What an object keeps about its properties by name. -/
structure Owner where
  required : RequiredSet
  docs : List (String × String)

def Owner.record (owner : Owner) (name : String) (mapping : PropertyMapping) : Owner where
  required := if mapping.optional then (owner.required.remove name).1
    else (owner.required.insert name).1
  docs := match mapping.description with
    | some doc => Assoc.put name doc owner.docs
    | none => Assoc.erase name owner.docs

/-- Asks about the properties that are still schemas, in order. -/
def mapProperties (mapper : Mapper σ) (container : String) (owner : Owner) :
    List (String × Node) → Asking σ (Owner × List (String × Node))
  | [] => pure (owner, [])
  | (name, .resolved type) :: rest => do
    let (owner, rest) ← mapProperties mapper container owner rest
    return (owner, (name, .resolved type) :: rest)
  | (name, .pending schema) :: rest => do
    let mapping ← mapper.ask schema (context owner.required name schema)
    let node : Node ← (answered container schema mapping : Noted Node)
    let (owner, rest) ← mapProperties mapper container (owner.record name mapping) rest
    return (owner, (name, node) :: rest)

/-- The step at one schema: objects have their own properties asked about. -/
def mapObject (mapper : Mapper σ) (container : String) (schema : SchemaNode) : Asking σ Node :=
  match schema.shape, schema.properties with
  | .object, some entries => do
    let (owner, entries) ← mapProperties mapper container ⟨schema.required, schema.docs⟩ entries
    return .pending
      { schema with required := owner.required, docs := owner.docs, properties := some entries }
  | _, _ => pure (.pending schema)

/-- Asks about every property of every object, children before their parent. -/
def applyMapper (mapper : Mapper σ) (container : String) (node : Node) : Asking σ Node :=
  rebuildM (fun _ => pure none) (mapObject mapper container) node

end Node
end SchemaTypes
