import LinkedSchema.Directory
import LinkedSchema.Model

/-!
# Catalogs of models

A catalog has at most one model under each name. Defining a name again replaces its model.
-/

namespace LinkedSchema

/-- The fields of models by the names of the models. -/
structure Catalog where
  models : Directory (List FieldDecl) := ∅
  deriving DecidableEq

namespace Catalog

/-- The catalog without models. -/
def empty : Catalog := {}

instance : EmptyCollection Catalog := ⟨empty⟩

/-- The catalog with a model defined, in place of a model of the same name. -/
def define (catalog : Catalog) (model : Model) : Catalog :=
  ⟨catalog.models.insert model.name model.fields⟩

/-- The model of a name. -/
def get? (catalog : Catalog) (name : String) : Option Model :=
  (catalog.models.get? name).map fun fields => { name, fields }

/-- The catalog of a list of models; of several of one name the last counts. -/
def ofModels (models : List Model) : Catalog :=
  models.foldl define ∅

/-- The defined names in ascending order. -/
def names (catalog : Catalog) : List String :=
  catalog.models.names

/-- The number of models. -/
def size (catalog : Catalog) : Nat :=
  catalog.models.size

/-- Reads a catalog from the JSON text of an array of models. -/
def read (s : String) : Except ReadError Catalog :=
  ofModels <$> Model.readAll s

/-- A model stands under its own name. -/
theorem name_of_get? {catalog : Catalog} {name : String} {model : Model}
    (h : catalog.get? name = some model) : model.name = name := by
  obtain ⟨fields, _, rfl⟩ := Option.map_eq_some_iff.mp h
  rfl

/-- A name is listed exactly when it has a model. -/
theorem mem_names_iff {catalog : Catalog} {name : String} :
    name ∈ catalog.names ↔ ∃ model, catalog.get? name = some model := by
  rw [names, Directory.mem_names_iff]
  constructor
  · rintro ⟨fields, h⟩
    exact ⟨{ name, fields }, by simp [get?, h]⟩
  · rintro ⟨model, h⟩
    obtain ⟨fields, h, _⟩ := Option.map_eq_some_iff.mp h
    exact ⟨fields, h⟩

/-- A defined name has the new model and every other name what it had. -/
theorem get?_define (catalog : Catalog) (model : Model) (name : String) :
    (catalog.define model).get? name =
      if model.name = name then some model else catalog.get? name := by
  simp only [get?, define, Directory.get?_insert]
  split
  · next h => subst h; rfl
  · rfl

end Catalog

end LinkedSchema
