import LinkedSchema.Directory
import LinkedSchema.Model
import LinkedSchema.Kind.Normal
import LinkedSchema.Registry

/-!
# Schema trees

A schema tree holds the definition of a root type and, once each, the definitions of the types
nested in it. The root is among the nested types only where some type refers back to it.
-/

namespace LinkedSchema

/-- A field as the schema shows it. -/
structure Property where
  name : String
  required : Bool
  default : Option Json := none
  kind : Kind
  description : Option String := none
  unit : Option String := none
  deriving DecidableEq

/-- A type as the schema shows it, its fields in the order of declaration. -/
structure TypeDefinition where
  name : String
  fields : List Property
  deriving DecidableEq

/-- The definitions of a root type and of the types nested in it, by name. -/
structure SchemaTree where
  root : TypeDefinition
  nested : Directory TypeDefinition
  deriving DecidableEq

/-- The property of a declared field, with its kind in normal form and with what is registered for
it. -/
def Property.ofDecl (registry : Registry) (type : String) (field : FieldDecl) : Property where
  name := field.name
  required := field.isRequired
  default := field.default
  kind := field.kind.normalize
  description := (registry.field? type field.name).bind (·.description)
  unit := (registry.field? type field.name).bind (·.unit)

namespace TypeDefinition

/-- The definition of a model. -/
def ofModel (registry : Registry) (model : Model) : TypeDefinition where
  name := model.name
  fields := model.fields.map (.ofDecl registry model.name)

/-- The names of the required fields, in the order of declaration. -/
def required (definition : TypeDefinition) : List String :=
  (definition.fields.filter (·.required)).map (·.name)

/-- The field of a name; of several the first counts. -/
def field? (definition : TypeDefinition) (name : String) : Option Property :=
  definition.fields.find? (·.name = name)

/-- Whether some field refers to a type. -/
def refersTo (definition : TypeDefinition) (type : String) : Bool :=
  definition.fields.any (·.kind.referenced.contains type)

end TypeDefinition

namespace SchemaTree

/-- The definition of a name, among the nested types or at the root. -/
def get? (tree : SchemaTree) (name : String) : Option TypeDefinition :=
  match tree.nested.get? name with
  | some definition => some definition
  | none => if tree.root.name = name then some tree.root else none

/-- The names under which a definition can be found. -/
def names (tree : SchemaTree) : List String :=
  tree.root.name :: tree.nested.names

/-- The tree of a root model and of all models that were reached from it, the root included. -/
def ofModels (registry : Registry) (root : Model) (reached : List Model) : SchemaTree :=
  let definitions := reached.map (TypeDefinition.ofModel registry)
  let nested := Directory.ofList (definitions.map fun definition => (definition.name, definition))
  { root := .ofModel registry root
    nested := if definitions.any (·.refersTo root.name) then nested else nested.erase root.name }

/-- A name with a definition is among the names of the tree. -/
theorem mem_names_of_get? {tree : SchemaTree} {name : String} {definition : TypeDefinition}
    (h : tree.get? name = some definition) : name ∈ tree.names := by
  unfold get? at h
  split at h
  · next hnested => exact List.mem_cons_of_mem _ (Directory.mem_names_iff.mpr ⟨_, hnested⟩)
  · split at h
    · next hroot => exact hroot ▸ List.mem_cons_self
    · simp at h

end SchemaTree

end LinkedSchema
