import LinkedSchema.Export

/-!
# Journal

The operations of the library can be followed in a journal. An event says what happened; its
level, its message and its fields are read off it. The events of an operation are a function of
its arguments.
-/

namespace LinkedSchema

/-- How much an event matters. -/
inductive Level
  | trace
  | debug
  | info
  | warning
  deriving DecidableEq

/-- What happened in an operation. -/
inductive Event
  | fieldRegistered (type field : String) (id : Option String)
  | fieldRepeated (type field : String)
  | typeRegistered (type id : String)
  | registryFrozen (types fields : Nat)
  | definitionBuilt (type : String) (fields : Nat)
  | introspected (root : String) (nested : Nat) (selfReferential : Bool)
  | identifiersDropped (type : String) (fields : List String)
  | contextBuilt (root : String) (terms scopes : Nat)
  | documentAssembled (type : String) (definitions instanceFields : Nat)
  | documentExported (root : String) (definitions : Nat) (withInstance : Bool)
  deriving DecidableEq

namespace Event

/-- The level of an event. -/
def level : Event → Level
  | .fieldRegistered .. => .debug
  | .fieldRepeated .. => .trace
  | .typeRegistered .. => .debug
  | .registryFrozen .. => .info
  | .definitionBuilt .. => .trace
  | .introspected .. => .debug
  | .identifiersDropped .. => .warning
  | .contextBuilt .. => .debug
  | .documentAssembled .. => .debug
  | .documentExported .. => .info

/-- The message of an event. -/
def message : Event → String
  | .fieldRegistered .. => "registered field metadata"
  | .fieldRepeated .. => "idempotent field registration"
  | .typeRegistered .. => "registered type metadata"
  | .registryFrozen .. => "metadata registry frozen"
  | .definitionBuilt .. => "built type definition"
  | .introspected .. => "introspected model"
  | .identifiersDropped .. =>
    "type has no class id; its field identifiers are left out of the context"
  | .contextBuilt .. => "built context"
  | .documentAssembled .. => "assembled document"
  | .documentExported .. => "exported semantic document"

/-- A count as JSON. -/
def count (n : Nat) : Json :=
  .num (.int n)

/-- The fields of an event under their names. -/
def fields : Event → Table Json
  | .fieldRegistered type field id =>
    [("type_name", .str type), ("field", .str field), ("id", .str (Text.quotedOption id))]
  | .fieldRepeated type field => [("type_name", .str type), ("field", .str field)]
  | .typeRegistered type id => [("type_name", .str type), ("id", .str id)]
  | .registryFrozen types fields => [("types", count types), ("fields", count fields)]
  | .definitionBuilt type fields => [("type_name", .str type), ("fields", count fields)]
  | .introspected root nested selfReferential =>
    [("root", .str root), ("nested", count nested), ("self_referential", .bool selfReferential)]
  | .identifiersDropped type fields =>
    [("type_name", .str type), ("fields", .str (Text.quotedList fields))]
  | .contextBuilt root terms scopes =>
    [("root", .str root), ("terms", count terms), ("scopes", count scopes)]
  | .documentAssembled type definitions instanceFields =>
    [("type_name", .str type), ("defs", count definitions),
      ("instance_fields", count instanceFields)]
  | .documentExported root definitions withInstance =>
    [("root", .str root), ("defs", count definitions), ("with_instance", .bool withInstance)]

end Event

namespace Journal

/-- The events of registering the metadata of a field. -/
def ofRegister (registry : Registry) (type field : String) (metadata : FieldMetadata) :
    List Event :=
  match registry.register type field metadata with
  | .error _ => []
  | .ok _ =>
    if (registry.field? type field).isSome then [.fieldRepeated type field]
    else [.fieldRegistered type field metadata.id]

/-- The events of registering the class identifier of a type; a repetition has none. -/
def ofRegisterType (registry : Registry) (type id : String) : List Event :=
  match registry.registerType type id with
  | .error _ => []
  | .ok _ => if (registry.classId? type).isSome then [] else [.typeRegistered type id]

/-- The events of freezing a registry; one that is frozen has none. -/
def ofFreeze (registry : Registry) : List Event :=
  match registry.phase with
  | .frozen => []
  | .populating => [.registryFrozen registry.classes.size registry.fieldCount]

/-- The events of finishing models. -/
def ofFinished (models : List Model) : List Event :=
  models.map fun model => .definitionBuilt model.name model.fields.length

/-- The events of introspecting a root. -/
def ofIntrospect (catalog : Catalog) (registry : Registry) (root : String) : List Event :=
  match catalog.explore root with
  | .error interruption => ofFinished interruption.progress
  | .ok (model, reached) =>
    let tree := SchemaTree.ofModels registry model reached
    let selfReferential := tree.nested.values.any (·.refersTo root)
    ofFinished reached ++ [.introspected root tree.nested.size selfReferential]

/-- The events about types whose fields have identifiers but which have no class identifier. -/
def ofUnscoped (tree : SchemaTree) (registry : Registry) (types : List String) : List Event :=
  types.filterMap fun type => do
    let definition ← tree.get? type
    let dropped := (definition.fields.map (·.name)).filter fun field =>
      (registry.fieldId? type field).isSome
    if dropped.isEmpty then none else some (.identifiersDropped type dropped)

/-- The events of building the context of a tree. -/
def ofContext (tree : SchemaTree) (registry : Registry) (vocabulary : Vocabulary) : List Event :=
  match Context.buildWithMemo tree registry vocabulary with
  | .error interruption => ofUnscoped tree registry interruption.progress.unscoped
  | .ok (scope, memo) =>
    ofUnscoped tree registry memo.unscoped ++
      [.contextBuilt tree.root.name scope.length memo.scopes.size]

/-- The events of assembling a document. -/
def ofAssemble (tree : SchemaTree) (context : Scope) (type : String) (instance? : Option Json) :
    List Event :=
  match tree.assemble context type instance? with
  | .error _ => []
  | .ok document => [.documentAssembled type document.definitions.length document.data.length]

/-- The events of introspecting a root and building its context. -/
def ofIntrospectAndContext (catalog : Catalog) (registry : Registry) (vocabulary : Vocabulary)
    (root : String) : List Event :=
  ofIntrospect catalog registry root ++
    match catalog.introspect registry root with
    | .error _ => []
    | .ok tree => ofContext tree registry vocabulary

/-- The events of compiling a document. -/
def ofCompile (registry : Registry) (catalog : Catalog) (vocabulary : Vocabulary) (root : String)
    (instance? : Option Json) : List Event :=
  ofIntrospectAndContext catalog registry vocabulary root ++
    match catalog.introspect registry root with
    | .error _ => []
    | .ok tree =>
      match Context.build tree registry vocabulary with
      | .error _ => []
      | .ok context => ofAssemble tree context root instance?

/-- The events of an export. -/
def ofExport (registry : Registry) (catalog : Catalog) (vocabulary : Vocabulary) (root : String)
    (instance? : Option Json) : List Event :=
  ofFreeze registry ++ ofCompile registry.freeze catalog vocabulary root instance? ++
    match compile registry.freeze catalog vocabulary root instance? with
    | .error _ => []
    | .ok document => [.documentExported root document.definitions.length instance?.isSome]

/-- The events of exporting a value; one that cannot be converted has none. -/
def ofExportValue {α : Type} [Exportable α] (registry : Registry) (catalog : Catalog)
    (vocabulary : Vocabulary) (value : α) : List Event :=
  match Exportable.toInstance value with
  | .error _ => []
  | .ok value => ofExport registry catalog vocabulary (Exportable.model α) (some value)

end Journal

end LinkedSchema
