import LinkedSchema.Conformity
import LinkedSchema.Document.Keys
import LinkedSchema.Schema
import LinkedSchema.Scope

/-!
# Documents

A document is a JSON Schema, a node of linked data and, if an instance is given, the data of it,
all in one object: the structural members first, then the fields of the instance. Every default of
the tree must conform to the kind of its field before anything is rendered.
-/

namespace LinkedSchema

/-- Why no document can be assembled. -/
inductive AssemblyError
  | misfit (source : Misfit)
  | invalidDefault (type field : String) (source : Misfit)
  deriving DecidableEq

/-- The message of a refused assembly. -/
def AssemblyError.message : AssemblyError → String
  | .misfit source => source.message
  | .invalidDefault type field source =>
    "default of " ++ type ++ "." ++ field ++ " does not fit its kind: " ++ source.message

/-- A schema, a context and data in one object. -/
structure Document where
  context : Scope
  definitions : Table Json
  properties : Table Json
  required : List String
  title : String
  type : String
  /-- The fields of the instance; none when there is no instance. -/
  data : Table Json
  deriving DecidableEq

namespace Document

/-- The value of a structural member. -/
def structural (document : Document) : StructuralKey → Json
  | .context => document.context.toJson
  | .definitions => .obj document.definitions
  | .properties => .obj document.properties
  | .required => .arr (document.required.map .str)
  | .title => .str document.title
  | .type => .str "object"
  | .className => .str document.type

/-- The members in the order of writing, the structural ones first. -/
def members (document : Document) : List (String × Json) :=
  StructuralKey.all.map (fun key => (key.name, document.structural key)) ++ document.data

/-- The document as it is written: every member in turn, also where a key comes twice. -/
def written (document : Document) : Json :=
  .obj document.members

/-- The document as a value: of members with one key the last gives the value, the first the
place. -/
def toJson (document : Document) : Json :=
  .obj (Table.ofList document.members)

/-- Whether the document carries data. -/
def hasInstance (document : Document) : Bool :=
  !document.data.isEmpty

end Document

namespace SchemaTree

/-- Checks the defaults of the given fields of a type, in order. -/
def checkDefaults (tree : SchemaTree) (type : String) : List Property → Except AssemblyError Unit
  | [] => .ok ()
  | field :: fields =>
    match field.default.map (tree.check field.kind) with
    | some (.error misfit) =>
      .error (.invalidDefault type field.name (misfit.under (.field field.name)))
    | _ => tree.checkDefaults type fields

/-- Checks the defaults of definitions, in order. -/
def checkAllDefaults (tree : SchemaTree) : List TypeDefinition → Except AssemblyError Unit
  | [] => .ok ()
  | definition :: definitions => do
    tree.checkDefaults definition.name definition.fields
    tree.checkAllDefaults definitions

/-- The data of an optional instance, checked against the root and with its defaults filled in. -/
def instanceData (tree : SchemaTree) : Option Json → Except AssemblyError (Table Json)
  | none => .ok []
  | some value => (tree.checkObject tree.root value).mapError .misfit

/-- The document of a tree with a context and optionally an instance of the root. -/
def assemble (tree : SchemaTree) (context : Scope) (type : String) (instance? : Option Json) :
    Except AssemblyError Document := do
  tree.checkAllDefaults (tree.root :: tree.nested.values)
  let data ← tree.instanceData instance?
  return {
    context, type, data
    definitions := tree.nested.entries.map fun entry => (entry.1, entry.2.schema)
    properties := tree.root.properties
    required := tree.root.required
    title := tree.root.name }

end SchemaTree

end LinkedSchema
