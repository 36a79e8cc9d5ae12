import LinkedSchema.Proofs.Context.Accounted
import LinkedSchema.Proofs.Context.Agreement
import LinkedSchema.Proofs.Document.Members
import LinkedSchema.Proofs.Document.Reordering
import LinkedSchema.Proofs.Schema.Everywhere

/-!
# What holds everywhere in a document

What holds of texts, of arrays and of objects with distinct keys, whatever is in them, holds
everywhere in a document if it holds everywhere in the models and in the instance: in the context,
where a scope has each term once, in the schemas, and in the data, which are made of the instance
and of defaults.
-/

namespace LinkedSchema

open Json (IsStructural)

variable {holds : Json → Prop}

namespace SchemaTree

variable {tree : SchemaTree} {definition : TypeDefinition} {kind : Kind} {value checked : Json}

/-- Something holds everywhere in the defaults of a tree. -/
def DefaultsEverywhere (tree : SchemaTree) (holds : Json → Prop) : Prop :=
  ∀ definition, tree.Holds definition → ∀ field ∈ definition.fields,
    ∀ default, field.default = some default → default.Everywhere holds

/-- If the check keeps something everywhere in smaller values, it does so in objects of a type. -/
theorem DefaultsEverywhere.of_checkObject (hdefaults : tree.DefaultsEverywhere holds)
    (h : IsStructural holds) (hdefinition : tree.Holds definition)
    (hvalue : value.Everywhere holds)
    (hsmaller : ∀ inner : Json, inner.size < value.size → inner.Everywhere holds →
      ∀ kind checked, tree.check kind inner = .ok checked → checked.Everywhere holds)
    {data : Table Json} (hdata : tree.checkObject definition value = .ok data) :
    (Json.obj data).Everywhere holds := by
  obtain ⟨members, entries, rfl, -, hentries, rfl⟩ := checkObject_eq_ok_iff.mp hdata
  apply h.everywhere_ofList
  intro entry hentry
  obtain ⟨field, hfield, -, hfills⟩ := exists_mem_of_forall₂ hentries hentry
  unfold Fills at hfills
  split at hfills
  · next given hgiven =>
    have hinner := (Json.everywhere_obj_iff.mp hvalue).2 _ (Table.mem_of_get? hgiven)
    exact hsmaller given (size_lt_of_get? hgiven) hinner field.kind entry.2 hfills
  · exact hdefaults definition hdefinition field hfield entry.2 hfills

/-- The check keeps what is structural and holds everywhere in a value and in the defaults. -/
theorem DefaultsEverywhere.of_check (hdefaults : tree.DefaultsEverywhere holds)
    (h : IsStructural holds) (hvalue : value.Everywhere holds)
    (hchecked : tree.check kind value = .ok checked) : checked.Everywhere holds := by
  induction hsize : value.size using Nat.strongRecOn generalizing kind value checked with
  | ind size ihvalue =>
    subst hsize
    -- What a check gives is made of parts of the value and of defaults.
    induction kind using Kind.induction with
    | scalar type =>
      obtain ⟨-, rfl⟩ := check_scalar_iff.mp hchecked
      exact hvalue
    | enumeration literals =>
      obtain ⟨-, rfl⟩ := check_enumeration_iff.mp hchecked
      exact hvalue
    | reference name =>
      obtain ⟨definition, hget, -⟩ := passes_reference_iff.mp ⟨checked, hchecked⟩
      obtain ⟨data, hdata, rfl⟩ := (check_reference_iff hget).mp hchecked
      refine hdefaults.of_checkObject h (holds_of_get? hget) hvalue ?_ hdata
      intro inner hsmaller hinner kind checked hchecked
      exact ihvalue inner.size hsmaller hinner hchecked rfl
    | collection item ih =>
      obtain ⟨items, results, rfl, hresults, rfl⟩ := check_collection_iff.mp hchecked
      refine Json.everywhere_arr_iff.mpr ⟨h.arr results, ?_⟩
      intro result hresult
      obtain ⟨inner, hinner, hfits⟩ := exists_mem_of_forall₂ hresults hresult
      have hsmaller := Json.size_le_of_mem hinner
      exact ihvalue inner.size (by simp only [Json.size]; omega)
        ((Json.everywhere_arr_iff.mp hvalue).2 inner hinner) hfits rfl
    | union members ih =>
      obtain ⟨kind, hmem, hfits⟩ := check_of_firstFit (check_union_iff.mp hchecked)
      exact ih kind hmem hfits
    | nullable inner ih =>
      rcases check_nullable_iff.mp hchecked with ⟨hnull, rfl⟩ | ⟨-, hfits⟩
      · exact hnull ▸ hvalue
      · exact ih hfits

end SchemaTree

namespace Context

variable {tree : SchemaTree} {registry : Registry} {vocabulary : Vocabulary} {context : Scope}
  {memo : ContextMemo}

/-- What is structural holds everywhere in a kept scope, for it has each term once and so has every
scope in it. -/
theorem Accounted.everywhere_toJson (haccounted : Accounted tree registry vocabulary context memo)
    (h : IsStructural holds) {type : String} {scope : Scope}
    (hkept : memo.scopes.get? type = some scope) : scope.toJson.Everywhere holds := by
  induction hsize : sizeOf scope using Nat.strongRecOn generalizing type scope with
  | ind size ih =>
    subst hsize
    have hnodup := haccounted.nodup type scope hkept
    have hkeys : Table.keys (scope.map fun entry => (entry.1, entry.2.toJson)) = scope.terms := by
      simp [Table.keys, Scope.terms, Function.comp_def]
    rw [Scope.toJson, Scope.membersToJson_eq_map, Json.everywhere_obj_iff]
    refine ⟨h.obj (hkeys ▸ hnodup), List.forall_mem_map.mpr ?_⟩
    rintro ⟨term, id | ⟨id, inner⟩⟩ hentry
    · exact Json.everywhere_str_iff.mpr (h.str id)
    -- The scope inside a term is the one that is kept for the type of the term, and smaller.
    · have hterm : scope.get? term = some (.scoped id inner) := Table.get?_of_mem hnodup hentry
      obtain ⟨-, -, -, hinner⟩ := haccounted.links_of_scoped hkept hterm
      have heverywhere := ih (sizeOf inner) (Scope.sizeOf_lt_of_get? hterm) hinner rfl
      rw [Scope.toJson] at heverywhere
      simp [Entry.toJson, Table.keys, h.obj, h.str, heverywhere]

end Context

/-- Something holds everywhere in the models of a catalog. -/
def Catalog.Everywhere (catalog : Catalog) (holds : Json → Prop) : Prop :=
  ∀ type model, catalog.get? type = some model → model.toJson.Everywhere holds

/-- It is enough to look at the models that are listed. -/
theorem Catalog.everywhere_iff {catalog : Catalog} :
    catalog.Everywhere holds ↔ ∀ entry ∈ catalog.models.entries,
      (Model.toJson { name := entry.1, fields := entry.2 }).Everywhere holds := by
  constructor
  · rintro h ⟨name, fields⟩ hentry
    refine h name { name, fields } ?_
    rw [Catalog.get?, Directory.mem_entries_iff.mp hentry, Option.map_some]
  · intro h type model hmodel
    obtain ⟨fields, hfields, rfl⟩ := Option.map_eq_some_iff.mp hmodel
    exact h (type, fields) (Directory.mem_entries_iff.mpr hfields)

instance [DecidablePred holds] {catalog : Catalog} : Decidable (catalog.Everywhere holds) :=
  decidable_of_iff' _ Catalog.everywhere_iff

namespace Catalog.Everywhere

variable {catalog : Catalog} {registry : Registry} {root : String} {tree : SchemaTree}
  {definition : TypeDefinition}

/-- A definition of a tree is the image of a model in which the same holds everywhere. -/
theorem exists_model_of_holds (hcatalog : catalog.Everywhere holds)
    (hmirrors : tree.Mirrors catalog registry root) (hdefinition : tree.Holds definition) :
    ∃ model : Model, model.toJson.Everywhere holds ∧ definition = .ofModel registry model := by
  rcases hdefinition with rfl | ⟨name, hnested⟩
  · obtain ⟨model, hmodel, heq⟩ := hmirrors.root_eq
    exact ⟨model, hcatalog root model hmodel, heq⟩
  · obtain ⟨-, model, hmodel, heq⟩ := (hmirrors.nested_iff name definition).mp hnested
    exact ⟨model, hcatalog name model hmodel, heq⟩

/-- What holds everywhere in the models of a catalog does so in the defaults of its trees. -/
theorem defaults (hcatalog : catalog.Everywhere holds)
    (hmirrors : tree.Mirrors catalog registry root) : tree.DefaultsEverywhere holds := by
  intro definition hdefinition property hproperty default hdefault
  obtain ⟨model, hmodel, rfl⟩ := hcatalog.exists_model_of_holds hmirrors hdefinition
  obtain ⟨field, hfield, rfl⟩ := List.mem_map.mp hproperty
  exact FieldDecl.everywhere_default (Model.everywhere_field hmodel hfield) hdefault

/-- What is structural and holds everywhere in the models of a catalog does so in the schemas of the
nested types. -/
theorem definitions (hcatalog : catalog.Everywhere holds) (h : IsStructural holds)
    (hmirrors : tree.Mirrors catalog registry root) :
    (Json.obj tree.definitions).Everywhere holds := by
  have hkeys : Table.keys tree.definitions = tree.nested.names := by
    simp [Table.keys, SchemaTree.definitions, Directory.names, Function.comp_def]
  have hnodup : (Table.keys tree.definitions).Nodup := hkeys ▸ tree.nested.nodup_names
  refine Json.everywhere_obj_iff.mpr ⟨h.obj hnodup, List.forall_mem_map.mpr ?_⟩
  intro entry hentry
  have hholds : tree.Holds entry.2 := .inr ⟨entry.1, Directory.mem_entries_iff.mp hentry⟩
  obtain ⟨model, hmodel, heq⟩ := hcatalog.exists_model_of_holds hmirrors hholds
  rw [heq]
  exact TypeDefinition.everywhere_schema_ofModel h hmodel

end Catalog.Everywhere

/-- What is structural and holds everywhere in the context, the definitions and the properties of a
document does so in its structural members. -/
theorem Document.everywhere_structural {document : Document} (h : IsStructural holds)
    (hcontext : document.context.toJson.Everywhere holds)
    (hdefinitions : (Json.obj document.definitions).Everywhere holds)
    (hproperties : (Json.obj document.properties).Everywhere holds) (key : StructuralKey) :
    (document.structural key).Everywhere holds := by
  cases key with
  | context => exact hcontext
  | definitions => exact hdefinitions
  | properties => exact hproperties
  | required => exact h.everywhere_names document.required
  | title | type | className => exact Json.everywhere_str_iff.mpr (h.str _)

/-- What is structural and holds everywhere in the models and in the instance does so in the
document. -/
theorem everywhere_written_of_compile {registry : Registry} {catalog : Catalog}
    {vocabulary : Vocabulary} {root : String} {instance? : Option Json} {document : Document}
    (h : IsStructural holds) (hcatalog : catalog.Everywhere holds)
    (hinstance : ∀ value, instance? = some value → value.Everywhere holds)
    (hdocument : compile registry catalog vocabulary root instance? = .ok document) :
    document.written.Everywhere holds := by
  obtain ⟨tree, context, htree, hcontext, hassemble⟩ := compile_eq_ok_iff.mp hdocument
  have hmirrors := SchemaTree.mirrors_of_introspect htree
  have hnodup := SchemaTree.nodup_keys_of_assemble htree hassemble
  obtain ⟨memo, haccounted⟩ := Context.exists_accounted_of_build hmirrors.get?_root hcontext
  obtain ⟨-, data, hdata, rfl⟩ := SchemaTree.assemble_eq_ok_iff.mp hassemble
  have hdefaults := hcatalog.defaults hmirrors
  have heverywhere : (Json.obj data).Everywhere holds := by
    cases instance? with
    | none =>
      obtain rfl : [] = data := Except.ok.inj hdata
      exact Json.everywhere_obj_iff.mpr ⟨h.obj List.nodup_nil, by simp⟩
    | some value =>
      refine hdefaults.of_checkObject h (.inl rfl) (hinstance value rfl) ?_
        (Outcome.mapError_eq_ok_iff.mp hdata)
      intro inner _ hinner kind checked hchecked
      exact hdefaults.of_check h hinner hchecked
  refine Json.everywhere_obj_iff.mpr ⟨h.obj hnodup, ?_⟩
  intro member hmember
  rcases List.mem_append.mp hmember with hmember | hmember
  · obtain ⟨key, -, rfl⟩ := List.mem_map.mp hmember
    obtain ⟨model, hmodel, hroot⟩ := hcatalog.exists_model_of_holds hmirrors (.inl rfl)
    refine Document.everywhere_structural h ?_ ?_ ?_ key
    · exact haccounted.everywhere_toJson h haccounted.root
    · exact hcatalog.definitions h hmirrors
    · show (Json.obj tree.root.properties).Everywhere holds
      rw [hroot]
      exact TypeDefinition.everywhere_properties_ofModel h hmodel
  · exact (Json.everywhere_obj_iff.mp heverywhere).2 member hmember

end LinkedSchema
