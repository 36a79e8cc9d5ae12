import LinkedSchema.Context
import LinkedSchema.Document
import LinkedSchema.Introspection

/-!
# Export

An export compiles a model, and optionally an instance of it, into a document: the schema tree
first, then its context, then the assembly. It freezes the registry, whether or not it succeeds.
-/

namespace LinkedSchema

/-- Why a value of the program could not be turned into JSON. -/
inductive ConversionError
  | keyNotText
  deriving DecidableEq

/-- The message of a failed conversion. -/
def ConversionError.message : ConversionError → String
  | .keyNotText => "key must be a string"

/-- Why an export gave no document. -/
inductive ExportError
  | introspection (error : IntrospectionError)
  | context (error : ContextError)
  | assembly (error : AssemblyError)
  | conversion (error : ConversionError)
  deriving DecidableEq

/-- The message of a failed export. -/
def ExportError.message : ExportError → String
  | .introspection error => error.message
  | .context error => error.message
  | .assembly error => error.message
  | .conversion error => "failed to convert instance to JSON: " ++ error.message

/-- The document of a root model with what a registry holds about it. -/
def compile (registry : Registry) (catalog : Catalog) (vocabulary : Vocabulary) (root : String)
    (instance? : Option Json) : Except ExportError Document := do
  let tree ← (catalog.introspect registry root).mapError .introspection
  let context ← (Context.build tree registry vocabulary).mapError .context
  (tree.assemble context root instance?).mapError .assembly

/-- Freezes the registry and compiles the document of a root model. -/
def exportDocument (registry : Registry) (catalog : Catalog) (vocabulary : Vocabulary)
    (root : String) (instance? : Option Json) : Registry × Except ExportError Document :=
  (registry.freeze, compile registry.freeze catalog vocabulary root instance?)

/-- Types whose values are instances of a model. -/
class Exportable (α : Type) where
  /-- The name of the model. -/
  model : String
  /-- The value as an instance of the model. -/
  toInstance : α → Except ConversionError Json

/-- Exports a value together with its model. A value that cannot be converted leaves the registry
as it is. -/
def exportValue {α : Type} [Exportable α] (registry : Registry) (catalog : Catalog)
    (vocabulary : Vocabulary) (value : α) : Registry × Except ExportError Document :=
  match Exportable.toInstance value with
  | .error error => (registry, .error (.conversion error))
  | .ok value =>
    exportDocument registry catalog vocabulary (Exportable.model α) (some value)

end LinkedSchema
