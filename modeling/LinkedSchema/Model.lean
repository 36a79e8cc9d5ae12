import LinkedSchema.Kind.Wire

/-!
# Models

A model is a named list of field declarations. A field is required exactly when it has no default;
a default of null is a default.
-/

namespace LinkedSchema

/-- A declared field. -/
structure FieldDecl where
  name : String
  kind : Kind
  default : Option Json := none
  deriving DecidableEq

/-- A named list of declared fields. -/
structure Model where
  name : String
  fields : List FieldDecl := []
  deriving DecidableEq

namespace FieldDecl

/-- Whether the field must be present in instances. -/
def isRequired (field : FieldDecl) : Bool :=
  field.default.isNone

/-- The declaration as JSON. -/
def toJson (field : FieldDecl) : Json :=
  .obj ([("name", .str field.name), ("kind", field.kind.toJson)] ++
    (field.default.map fun value => ("default", value)).toList)

/-- The parts of a declaration that is being read. -/
structure Parts where
  name : Option String := none
  kind : Option Kind := none
  default : Option Json := none

/-- A declaration is read from a name, a kind and a default, which alone may be missing. -/
def form : RecordForm Parts where
  name := "FieldDecl"
  blank := {}
  fields :=
    [{ name := "name", required := true, isFilled := fun parts => parts.name.isSome,
       fill := fun _ draft parts => return { parts with name := some (← draft.toText) } },
     { name := "kind", required := true, isFilled := fun parts => parts.kind.isSome,
       fill := fun depth draft parts =>
         return { parts with kind := some (← Kind.ofDraft depth draft) } },
     { name := "default", required := false, isFilled := fun parts => parts.default.isSome,
       fill := fun depth draft parts =>
         return { parts with default := some (← draft.toJson depth) } }]

/-- Reads a declaration. -/
def ofDraft (depth : Nat) (draft : Draft) : Except ReadError FieldDecl := do
  let parts ← form.read depth draft
  let name ← RecordForm.require "name" parts.name
  let kind ← RecordForm.require "kind" parts.kind
  return { name, kind, default := parts.default }

end FieldDecl

namespace Model

/-- The model as JSON. -/
def toJson (model : Model) : Json :=
  .obj [("name", .str model.name), ("fields", .arr (model.fields.map FieldDecl.toJson))]

/-- The parts of a model that is being read. -/
structure Parts where
  name : Option String := none
  fields : Option (List FieldDecl) := none

/-- A model is read from a name and its fields, which may be missing. -/
def form : RecordForm Parts where
  name := "ModelDef"
  blank := {}
  fields :=
    [{ name := "name", required := true, isFilled := fun parts => parts.name.isSome,
       fill := fun _ draft parts => return { parts with name := some (← draft.toText) } },
     { name := "fields", required := false, isFilled := fun parts => parts.fields.isSome,
       fill := fun depth draft parts =>
         return { parts with fields := some (← draft.toList FieldDecl.ofDraft depth) } }]

/-- Reads a model. -/
def ofDraft (depth : Nat) (draft : Draft) : Except ReadError Model := do
  let parts ← form.read depth draft
  let name ← RecordForm.require "name" parts.name
  return { name, fields := parts.fields.getD [] }

/-- Reads an array of models from a JSON text. -/
def readAll (s : String) : Except ReadError (List Model) :=
  readWith (fun depth draft => draft.toList ofDraft depth) s

end Model

end LinkedSchema
