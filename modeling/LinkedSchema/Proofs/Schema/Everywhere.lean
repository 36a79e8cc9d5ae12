import LinkedSchema.Proofs.Json.Parts
import LinkedSchema.Proofs.Kind.Normal
import LinkedSchema.Proofs.Schema.Fragments

/-!
# What holds everywhere in a schema

A schema is put together from the literals and defaults of a model and from texts, in arrays and in
objects with distinct keys. So what holds of all of these, whatever is in them, holds everywhere in
the schema of a type if it holds everywhere in the model.
-/

namespace LinkedSchema

open Json (IsStructural)

variable {holds : Json → Prop}

namespace Kind

variable {kind other : Kind}

/-- What is structural holds everywhere in the schema of a scalar. -/
theorem everywhere_schema_scalar (h : IsStructural holds) (type : ScalarType) :
    (scalar type).schema.Everywhere holds := by
  unfold schema
  cases type.keyword? with
  | none => simp [h.obj, Table.keys]
  | some keyword => simp [h.obj, h.str, Table.keys]

/-- What is structural holds everywhere in the schema of a union if it does in those of the
members. -/
theorem everywhere_schema_union (h : IsStructural holds) {members : List Kind}
    (hmembers : ∀ kind ∈ members, kind.schema.Everywhere holds) :
    (Kind.union members).schema.Everywhere holds := by
  simpa [schema, schemaMembers_eq_map, h.obj, h.arr, Table.keys] using hmembers

/-- What holds everywhere in the schema of a kind does so in what the kind contributes to a
union. -/
theorem everywhere_schema_of_alternatives (h : kind.schema.Everywhere holds)
    (hother : other ∈ alternatives kind) : other.schema.Everywhere holds := by
  cases kind with
  | union members =>
    simp only [schema, schemaMembers_eq_map, Json.everywhere_obj_iff, Json.everywhere_arr_iff,
      List.forall_mem_singleton, List.forall_mem_map] at h
    exact h.2.2 other hother
  | _ =>
    obtain rfl := List.mem_singleton.mp hother
    exact h

/-- The members of a union are written one after another. -/
theorem membersToJson_eq_map (members : List Kind) :
    membersToJson members = members.map toJson := by
  induction members with
  | nil => rfl
  | cons kind kinds ih => rw [membersToJson, ih, List.map_cons]

/-- What is structural holds everywhere in the schema of a normal kind if it does in the literals of
the kind. -/
theorem everywhere_schema_normalize (h : IsStructural holds)
    (hkind : kind.toJson.Everywhere holds) : kind.normalize.schema.Everywhere holds := by
  induction kind using Kind.induction with
  | scalar type => exact everywhere_schema_scalar h type
  | enumeration literals =>
    simp only [toJson, Json.everywhere_obj_iff, Json.everywhere_arr_iff,
      List.forall_mem_singleton] at hkind
    simpa [normalize, schema, h.obj, h.arr, Table.keys] using hkind.2.2
  | reference name => simp [normalize, schema, h.obj, h.str, Table.keys]
  | collection item ih =>
    simp only [toJson, Json.everywhere_obj_iff, List.forall_mem_singleton] at hkind
    simpa [normalize, schema, h.obj, h.str, Table.keys] using ih hkind.2
  | nullable inner ih =>
    simp only [toJson, Json.everywhere_obj_iff, List.forall_mem_singleton] at hkind
    refine everywhere_schema_union h ?_
    intro other hother
    rcases List.mem_append.mp (mem_of_mem_distinct hother) with hother | hother
    · exact everywhere_schema_of_alternatives (ih hkind.2) hother
    · obtain rfl := List.mem_singleton.mp hother
      exact everywhere_schema_scalar h .null
  | union members ih =>
    simp only [toJson, membersToJson_eq_map, Json.everywhere_obj_iff, Json.everywhere_arr_iff,
      List.forall_mem_singleton, List.forall_mem_map] at hkind
    refine everywhere_schema_union h ?_
    intro other hother
    have hmem := mem_of_mem_distinct hother
    rw [normalizeMembers_eq_flatMap] at hmem
    obtain ⟨member, hmember, hother⟩ := List.mem_flatMap.mp hmem
    exact everywhere_schema_of_alternatives (ih member hmember (hkind.2.2 member hmember)) hother

/-- The schema of a kind is an object with distinct keys. -/
theorem exists_schema_eq_distinct (kind : Kind) :
    ∃ members, kind.schema = .obj members ∧ (Table.keys members).Nodup := by
  cases kind with
  | scalar type =>
    refine ⟨_, rfl, ?_⟩
    cases type <;> decide
  | enumeration | reference | collection | union | nullable =>
    exact ⟨_, rfl, by simp [Table.keys]⟩

end Kind

section Models

variable {registry : Registry} {model : Model} {field : FieldDecl}

/-- What holds everywhere in a declaration does so in its default. -/
theorem FieldDecl.everywhere_default (h : field.toJson.Everywhere holds) {default : Json}
    (hdefault : field.default = some default) : default.Everywhere holds :=
  (Json.everywhere_obj_iff.mp h).2 ("default", default) (by simp [hdefault])

/-- What holds everywhere in a model does so in the declarations of its fields. -/
theorem Model.everywhere_field (h : model.toJson.Everywhere holds) (hfield : field ∈ model.fields) :
    field.toJson.Everywhere holds := by
  have hfields := (Json.everywhere_obj_iff.mp h).2
    ("fields", .arr (model.fields.map FieldDecl.toJson)) (by simp)
  exact (Json.everywhere_arr_iff.mp hfields).2 field.toJson (List.mem_map_of_mem hfield)

/-- What is structural holds everywhere in the schema of a field if it does in the declaration. -/
theorem Property.everywhere_schema_ofDecl (h : IsStructural holds)
    (hfield : field.toJson.Everywhere holds) {type : String} :
    (ofDecl registry type field).schema.Everywhere holds := by
  have hkind := Kind.everywhere_schema_normalize h
    ((Json.everywhere_obj_iff.mp hfield).2 ("kind", field.kind.toJson) (by simp))
  obtain ⟨members, hschema, hnodup⟩ := field.kind.normalize.exists_schema_eq_distinct
  have hmembers : (ofDecl registry type field).kind.schema = .obj members := hschema
  rw [hschema, Json.everywhere_obj_iff] at hkind
  rw [schema, hmembers]
  refine h.everywhere_insertAll hnodup hkind.2 ?_
  intro entry hentry
  simp only [annotations, List.mem_append, Option.mem_toList, Option.map_eq_some_iff] at hentry
  rcases hentry with (⟨text, -, rfl⟩ | ⟨text, -, rfl⟩) | ⟨default, hdefault, rfl⟩
  · exact Json.everywhere_str_iff.mpr (h.str text)
  · exact Json.everywhere_str_iff.mpr (h.str text)
  · exact FieldDecl.everywhere_default hfield hdefault

/-- What is structural holds everywhere in the properties of a type if it does in the model. -/
theorem TypeDefinition.everywhere_properties_ofModel (h : IsStructural holds)
    (hmodel : model.toJson.Everywhere holds) :
    (Json.obj (ofModel registry model).properties).Everywhere holds := by
  apply h.everywhere_ofList
  intro entry hentry
  obtain ⟨property, hproperty, rfl⟩ := List.mem_map.mp hentry
  obtain ⟨field, hfield, rfl⟩ := List.mem_map.mp hproperty
  exact Property.everywhere_schema_ofDecl h (Model.everywhere_field hmodel hfield)

/-- What is structural holds everywhere in the schema of a type if it does in the model. -/
theorem TypeDefinition.everywhere_schema_ofModel (h : IsStructural holds)
    (hmodel : model.toJson.Everywhere holds) :
    (ofModel registry model).schema.Everywhere holds := by
  have hproperties : (Json.obj (ofModel registry model).properties).Everywhere holds :=
    everywhere_properties_ofModel h hmodel
  have hrequired := h.everywhere_names (ofModel registry model).required
  simp [schema, requiredJson, h.obj, h.str, Table.keys, hproperties, hrequired]

end Models

end LinkedSchema
