import LinkedSchema.Document.Keys
import LinkedSchema.Tree
import LinkedSchema.Walk

/-!
# Introspection

Introspection turns a model and all models reached from it into a schema tree. The root must be
defined and must not use the names reserved for the structure of a document.
-/

namespace LinkedSchema

namespace Catalog

/-- The root model and the models reached from it in the order in which the walk finished them,
the root last. -/
def explore (catalog : Catalog) (root : String) :
    Except (Interruption IntrospectionError (List Model)) (Model × List Model) :=
  match catalog.get? root with
  | none => .error ⟨.unknownRoot root, []⟩
  | some model =>
    match model.fields.find? fun field => StructuralKey.isReserved field.name with
    | some field => .error ⟨.reservedFieldName root field.name, []⟩
    | none => do
      let finished ← walk catalog [⟨root, false⟩] model.steps []
      return (model, finished ++ [model])

/-- The schema tree of a root, with the descriptions and units that are registered. -/
def introspect (catalog : Catalog) (registry : Registry) (root : String) :
    Except IntrospectionError SchemaTree :=
  match catalog.explore root with
  | .error interruption => .error interruption.cause
  | .ok (model, reached) => .ok (.ofModels registry model reached)

end Catalog

end LinkedSchema
