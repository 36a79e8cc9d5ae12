import LinkedSchema.Json.Printer
import LinkedSchema.Json.Record

/-!
# Metadata of fields

What a field means: an identifier, a unit of measure and a description, each of which may be
absent.
-/

namespace LinkedSchema

/-- The meaning of one field of one type. -/
structure FieldMetadata where
  id : Option String := none
  unit : Option String := none
  description : Option String := none
  deriving DecidableEq

namespace FieldMetadata

/-- A member for a part that is there. -/
def member (key : String) (part : Option String) : List (String × Json) :=
  (part.map fun text => (key, Json.str text)).toList

/-- The metadata as JSON, without the absent parts. -/
def toJson (metadata : FieldMetadata) : Json :=
  .obj (member "id" metadata.id ++ member "unit" metadata.unit ++
    member "description" metadata.description)

/-- The metadata as messages show it, with all parts. -/
def describe (metadata : FieldMetadata) : String :=
  "FieldMetadata \x7b id: " ++ Text.quotedOption metadata.id ++
    ", unit: " ++ Text.quotedOption metadata.unit ++
    ", description: " ++ Text.quotedOption metadata.description ++ " \x7d"

/-- The parts of metadata that is being read, `none` for a part that has not been met. -/
structure Parts where
  id : Option (Option String) := none
  unit : Option (Option String) := none
  description : Option (Option String) := none

/-- Metadata is read from its three parts, all of which may be missing or null. -/
def form : RecordForm Parts where
  name := "FieldMetadata"
  blank := {}
  fields :=
    [{ name := "id", required := false, isFilled := fun parts => parts.id.isSome,
       fill := fun _ draft parts => return { parts with id := some (← draft.toOptionalText) } },
     { name := "unit", required := false, isFilled := fun parts => parts.unit.isSome,
       fill := fun _ draft parts => return { parts with unit := some (← draft.toOptionalText) } },
     { name := "description", required := false, isFilled := fun parts => parts.description.isSome,
       fill := fun _ draft parts =>
         return { parts with description := some (← draft.toOptionalText) } }]

/-- Reads metadata. -/
def ofDraft (depth : Nat) (draft : Draft) : Except ReadError FieldMetadata := do
  let parts ← form.read depth draft
  return { id := parts.id.join, unit := parts.unit.join, description := parts.description.join }

/-- Reads metadata from a JSON text. -/
def read (s : String) : Except ReadError FieldMetadata :=
  readWith ofDraft s

end FieldMetadata

end LinkedSchema
