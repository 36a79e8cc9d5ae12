import LinkedSchema.Proofs.Conformity.Closed
import LinkedSchema.Proofs.Outcome
import Mathlib

/-!
# The reachable closure

The nested types of an introspected tree are the types to which one or more references lead from
the root, no more and no fewer. Each stands under its own name, and every definition shows its model
field by field: what is declared for the field, with the kind in normal form, and what is registered
for it.
-/

namespace LinkedSchema

/-- A property shows a declared field of a type with what is registered for the field. -/
structure Property.Shows (registry : Registry) (type : String) (field : FieldDecl)
    (property : Property) : Prop where
  name : property.name = field.name
  default : property.default = field.default
  required : property.required = true ↔ field.default = none
  kind : property.kind = field.kind.normalize
  description : property.description = (registry.field? type field.name).bind (·.description)
  unit : property.unit = (registry.field? type field.name).bind (·.unit)

/-- A definition shows a model, field by field in the order of declaration. -/
structure TypeDefinition.Shows (registry : Registry) (model : Model)
    (definition : TypeDefinition) : Prop where
  name : definition.name = model.name
  fields : List.Forall₂ (Property.Shows registry model.name) model.fields definition.fields
  required : definition.required =
    (model.fields.filter fun field => field.default = none).map (·.name)

/-- The property made of a declared field shows it. -/
theorem Property.shows_ofDecl (registry : Registry) (type : String) (field : FieldDecl) :
    (Property.ofDecl registry type field).Shows registry type field where
  name := rfl
  default := rfl
  required := by simp [ofDecl, FieldDecl.isRequired]
  kind := rfl
  description := rfl
  unit := rfl

namespace TypeDefinition

/-- Where fields are shown one by one, the required ones among them have the names of those without
a default. -/
theorem required_of_shows {registry : Registry} {type : String} {fields : List FieldDecl}
    {properties : List Property}
    (h : List.Forall₂ (Property.Shows registry type) fields properties) :
    (properties.filter (·.required)).map (·.name) =
      (fields.filter fun field => field.default = none).map (·.name) := by
  induction h with
  | nil => rfl
  | @cons field property fields properties hfirst _ ih =>
    by_cases hdefault : field.default = none
    · have hrequired : property.required = true := hfirst.required.mpr hdefault
      simp [hdefault, hrequired, hfirst.name, ih]
    · have hoptional : ¬ property.required = true := fun h => hdefault (hfirst.required.mp h)
      simp [hdefault, hoptional, ih]

/-- The definition made of a model shows it. -/
theorem shows_ofModel (registry : Registry) (model : Model) :
    (ofModel registry model).Shows registry model := by
  have hfields : List.Forall₂ (Property.Shows registry model.name) model.fields
      (ofModel registry model).fields := by
    rw [ofModel, List.forall₂_map_right_iff, List.forall₂_same]
    exact fun field _ => Property.shows_ofDecl registry model.name field
  exact ⟨rfl, hfields, required_of_shows hfields⟩

end TypeDefinition

namespace SchemaTree

variable {tree : SchemaTree} {catalog : Catalog} {registry : Registry} {root : String}

namespace Mirrors

/-- A type is nested exactly if one or more references lead to it from the root. -/
theorem mem_names_iff (h : tree.Mirrors catalog registry root) {name : String} :
    name ∈ tree.nested.names ↔ Relation.TransGen catalog.Refers root name := by
  rw [Directory.mem_names_iff]
  constructor
  · rintro ⟨definition, hnested⟩
    exact ((h.nested_iff name definition).mp hnested).1
  · intro hleads
    obtain ⟨model, hmodel, -⟩ := h.defined name hleads.to_reflTransGen
    exact ⟨_, (h.nested_iff name _).mpr ⟨hleads, model, hmodel, rfl⟩⟩

/-- Every definition of the tree shows the model of its name. -/
theorem shows_of_holds (h : tree.Mirrors catalog registry root) {definition : TypeDefinition}
    (hholds : tree.Holds definition) :
    ∃ model, catalog.get? definition.name = some model ∧ definition.Shows registry model := by
  rcases hholds with rfl | ⟨name, hnested⟩
  · obtain ⟨model, hmodel, heq⟩ := h.root_eq
    rw [h.root_name, heq]
    exact ⟨model, hmodel, TypeDefinition.shows_ofModel registry model⟩
  · obtain ⟨-, model, hmodel, rfl⟩ := (h.nested_iff name definition).mp hnested
    refine ⟨model, ?_, TypeDefinition.shows_ofModel registry model⟩
    rwa [← Catalog.name_of_get? hmodel] at hmodel

end Mirrors

/-- The tree of an introspection is the closure of the root under references. Its nested types are
exactly those to which one or more references lead from the root, the root itself only if a
reachable type refers to it; whatever is mentioned in the tree is nested; each definition stands
under its own name, that of the root unchanged among the nested ones, and shows its model. -/
theorem closure_of_introspect (h : catalog.introspect registry root = .ok tree) :
    (∀ name, name ∈ tree.nested.names ↔ Relation.TransGen catalog.Refers root name) ∧
      (root ∈ tree.nested.names ↔
        ∃ type, catalog.Reaches root type ∧ catalog.Refers type root) ∧
      (∀ definition, tree.Holds definition → ∀ field ∈ definition.fields,
        ∀ target, field.kind.Mentions target → target ∈ tree.nested.names) ∧
      (∀ name definition, tree.nested.get? name = some definition → definition.name = name) ∧
      (∀ definition, tree.nested.get? root = some definition → definition = tree.root) ∧
      tree.root.name = root ∧
      ∀ definition, tree.Holds definition →
        ∃ model, catalog.get? definition.name = some model ∧ definition.Shows registry model := by
  have hmirrors := mirrors_of_introspect h
  have hclosed := hmirrors.isClosed
  refine ⟨fun name => hmirrors.mem_names_iff, ?_, ?_, ?_, ?_, hmirrors.root_name,
    fun definition => hmirrors.shows_of_holds⟩
  · rw [hmirrors.mem_names_iff, Relation.TransGen.tail'_iff]
    rfl
  · intro definition hdefinition field hfield target hmentions
    exact Directory.mem_names_iff.mpr
      (hclosed.defined definition hdefinition field hfield target hmentions)
  · intro name definition hnested
    obtain ⟨-, model, hmodel, rfl⟩ := (hmirrors.nested_iff name definition).mp hnested
    exact Catalog.name_of_get? hmodel
  · intro definition hnested
    obtain ⟨-, model, hmodel, rfl⟩ := (hmirrors.nested_iff root definition).mp hnested
    obtain ⟨other, hother, heq⟩ := hmirrors.root_eq
    rw [heq, Option.some.inj (hmodel.symm.trans hother)]

/-- A package with a manager and perhaps another one, and with the packages that it depends on. -/
def managedPackages : Catalog :=
  .ofModels [
    { name := "Package", fields := [
      { name := "name", kind := .scalar .string },
      { name := "manager", kind := .reference "Manager" },
      { name := "fallback", kind := .nullable (.reference "Manager"), default := some .null },
      { name := "dependencies", kind := .collection (.reference "Package"),
        default := some (.arr []) }] },
    { name := "Manager", fields := [{ name := "name", kind := .scalar .string }] }]

/-- A description for a field of the managers. -/
def managerRegistry : Registry :=
  Registry.empty.putField "Manager" "name" { description := some "Name of the manager" }

/-- Packages depend on packages and so are nested in their own tree, beside the managers. -/
theorem closure_of_introspect_managedPackages :
    ∃ tree, managedPackages.introspect managerRegistry "Package" = .ok tree ∧
      (∀ name, name ∈ tree.nested.names ↔
        Relation.TransGen managedPackages.Refers "Package" name) ∧
      ("Package" ∈ tree.nested.names ↔
        ∃ type, managedPackages.Reaches "Package" type ∧ managedPackages.Refers type "Package") ∧
      (∀ definition, tree.Holds definition → ∀ field ∈ definition.fields,
        ∀ target, field.kind.Mentions target → target ∈ tree.nested.names) ∧
      (∀ name definition, tree.nested.get? name = some definition → definition.name = name) ∧
      (∀ definition, tree.nested.get? "Package" = some definition → definition = tree.root) ∧
      tree.root.name = "Package" ∧
      ∀ definition, tree.Holds definition →
        ∃ model, managedPackages.get? definition.name = some model ∧
          definition.Shows managerRegistry model := by
  have hok : (managedPackages.introspect managerRegistry "Package").isOk = true := by cbv
  obtain ⟨tree, h⟩ := Outcome.exists_of_isOk hok
  exact ⟨tree, h, closure_of_introspect h⟩

end SchemaTree

end LinkedSchema
