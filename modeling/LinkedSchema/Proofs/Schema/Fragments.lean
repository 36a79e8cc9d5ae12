import LinkedSchema.Proofs.Kind.Members
import LinkedSchema.Proofs.Schema.Validity

/-!
# What the schemas of kinds and types demand

The schema of a kind demands of a value what the kind declares. What a field adds to the schema of
its kind demands nothing, and the schema of a type demands an object with the required fields, with
no others than the declared ones, and with a valid value for each.
-/

namespace LinkedSchema

variable {definitions : Table Json} {value : Json}

namespace Kind

/-- A scalar type with a keyword accepts the values of the types that the keyword names. -/
theorem accepts_iff {type : ScalarType} {keyword : String} (h : type.keyword? = some keyword) :
    type.accepts value = true ↔ keyword ∈ value.typeNames := by
  cases type with
  | any => cases h
  | string | integer | number | boolean | null =>
    cases h
    cases value with
    | num number =>
      cases number <;> simp [ScalarType.accepts, Json.typeNames, ScalarType.name]
    | _ => simp [ScalarType.accepts, Json.typeNames, ScalarType.name]

/-- What is valid for a scalar are the values of its type. -/
theorem valid_scalar_iff {type : ScalarType} :
    Valid definitions (Kind.scalar type).schema value ↔ type.accepts value = true := by
  rw [schema, valid_obj_iff]
  cases hkeyword : type.keyword? with
  | none =>
    have hany : type = .any := by
      cases type <;> simp_all [ScalarType.keyword?]
    simp [hany, ScalarType.accepts, Constraint.ofMembers]
  | some keyword =>
    simp [Constraint.ofMembers, Constraint.ofMember?, meets_type_iff, accepts_iff hkeyword]

/-- What is valid for an enumeration is equal to a literal. -/
theorem valid_enumeration_iff {literals : List Json} :
    Valid definitions (Kind.enumeration literals).schema value ↔
      literals.any (·.equal value) = true := by
  rw [schema, valid_obj_iff]
  simp [Constraint.ofMembers, Constraint.ofMember?, meets_enum_iff]

/-- What is valid for a reference is valid for the definition of its type. -/
theorem valid_reference_iff {name : String} :
    Valid definitions (Kind.reference name).schema value ↔
      ∃ schema, Table.get? definitions name = some schema ∧ Valid definitions schema value := by
  rw [schema, valid_obj_iff]
  simp [Constraint.ofMembers, Constraint.ofMember?, meets_reference_iff]

/-- What is valid for a collection are the arrays whose items are valid. -/
theorem valid_collection_iff {item : Kind} :
    Valid definitions (Kind.collection item).schema value ↔
      ∃ items, value = .arr items ∧ ∀ inner ∈ items, Valid definitions item.schema inner := by
  have hconstraints : Constraint.ofMembers [("type", .str "array"), ("items", item.schema)] =
      [.type "array", .items item.schema] := rfl
  rw [schema, valid_obj_iff, hconstraints, List.forall_mem_cons, List.forall_mem_singleton,
    meets_type_iff]
  constructor
  · rintro ⟨htype, hitems⟩
    cases value with
    | arr items => exact ⟨items, rfl, meets_items_iff.mp hitems⟩
    | num number => cases number <;> simp [Json.typeNames] at htype
    | _ => simp [Json.typeNames] at htype
  · rintro ⟨items, rfl, hitems⟩
    exact ⟨by simp [Json.typeNames], meets_items_iff.mpr hitems⟩

/-- What is valid for a union is valid for one of its members. -/
theorem valid_union_iff {members : List Kind} :
    Valid definitions (Kind.union members).schema value ↔
      ∃ kind ∈ members, Valid definitions kind.schema value := by
  rw [schema, valid_obj_iff, schemaMembers_eq_map]
  simp [Constraint.ofMembers, Constraint.ofMember?, meets_anyOf_iff]

/-- The schema of null admits null alone. -/
theorem valid_nullSchema_iff : Valid definitions nullSchema value ↔ value = .null := by
  have h := @valid_scalar_iff definitions value .null
  rw [show nullSchema = (Kind.scalar .null).schema from rfl, h]
  cases value <;> simp [ScalarType.accepts]

/-- What is valid for a nullable is null or valid for the kind inside. -/
theorem valid_nullable_iff {inner : Kind} :
    Valid definitions (Kind.nullable inner).schema value ↔
      value = .null ∨ Valid definitions inner.schema value := by
  rw [schema, valid_obj_iff]
  simp [Constraint.ofMembers, Constraint.ofMember?, meets_anyOf_iff, valid_nullSchema_iff,
    or_comm]

/-- The schema of a kind is an object. -/
theorem exists_schema_eq_obj (kind : Kind) : ∃ members, kind.schema = .obj members := by
  cases kind <;> exact ⟨_, rfl⟩

end Kind

namespace Constraint

/-- Writing a member that demands nothing changes no constraint. -/
theorem ofMembers_insert {key : String} (h : ∀ value, ofMember? (key, value) = none)
    (table : Table Json) (value : Json) :
    ofMembers (Table.insert table key value) = ofMembers table := by
  induction table with
  | nil => simp [Table.insert, ofMembers, h]
  | cons entry rest ih =>
    obtain ⟨name, old⟩ := entry
    by_cases hname : name = key
    · subst hname
      simp [Table.insert, ofMembers, h]
    · have hrest : ofMembers (Table.insert rest key value) = ofMembers rest := ih
      simp only [ofMembers] at hrest
      simp [Table.insert, if_neg hname, ofMembers, List.filterMap_cons, hrest]

/-- Writing members that demand nothing changes no constraint. -/
theorem ofMembers_insertAll {entries : List (String × Json)}
    (h : ∀ entry ∈ entries, ∀ value, ofMember? (entry.1, value) = none) (table : Table Json) :
    ofMembers (Table.insertAll table entries) = ofMembers table := by
  induction entries generalizing table with
  | nil => rfl
  | cons entry entries ih =>
    obtain ⟨hentry, hentries⟩ := List.forall_mem_cons.mp h
    rw [Table.insertAll, ih hentries, ofMembers_insert hentry]

end Constraint

namespace Property

/-- What a field adds to the schema of its kind states no constraint. -/
theorem ofMember?_annotation (field : Property) :
    ∀ entry ∈ field.annotations, ∀ value, Constraint.ofMember? (entry.1, value) = none := by
  intro entry hentry other
  simp only [annotations, List.mem_append, Option.mem_toList, Option.map_eq_some_iff] at hentry
  rcases hentry with (⟨text, -, rfl⟩ | ⟨text, -, rfl⟩) | ⟨default, -, rfl⟩
  · rfl
  · rfl
  · rfl

/-- What a field adds to the schema of its kind demands nothing. -/
theorem valid_iff {field : Property} :
    Valid definitions field.schema value ↔ Valid definitions field.kind.schema value := by
  obtain ⟨members, hmembers⟩ := field.kind.exists_schema_eq_obj
  rw [schema, hmembers, valid_obj_iff, valid_obj_iff,
    Constraint.ofMembers_insertAll field.ofMember?_annotation]

end Property

namespace TypeDefinition

/-- No two fields of the definition have one name. -/
def HasDistinctFields (definition : TypeDefinition) : Prop :=
  (definition.fields.map (·.name)).Nodup

/-- The properties of a definition are the schemas of its fields, in order. -/
theorem properties_eq_map {definition : TypeDefinition} (h : definition.HasDistinctFields) :
    definition.properties = definition.fields.map fun field => (field.name, field.schema) := by
  refine Table.ofList_of_nodup ?_
  simpa [Table.keys, Function.comp_def, HasDistinctFields] using h

/-- The schema under a name is that of the field of the name. -/
theorem get?_properties_iff {definition : TypeDefinition} (h : definition.HasDistinctFields)
    {key : String} {schema : Json} :
    Table.get? definition.properties key = some schema ↔
      ∃ field ∈ definition.fields, field.name = key ∧ schema = field.schema := by
  have hkeys :
      (Table.keys (definition.fields.map fun field => (field.name, field.schema))).Nodup := by
    simpa [Table.keys, Function.comp_def, HasDistinctFields] using h
  rw [properties_eq_map h]
  constructor
  · intro hget
    obtain ⟨field, hfield, heq⟩ := List.mem_map.mp (Table.mem_of_get? hget)
    obtain ⟨rfl, rfl⟩ := Prod.mk.inj heq
    exact ⟨field, hfield, rfl, rfl⟩
  · rintro ⟨field, hfield, rfl, rfl⟩
    exact Table.get?_of_mem hkeys (List.mem_map_of_mem hfield)

/-- The schema of a type demands an object with all required fields, with declared fields alone and
with a valid value for each. -/
theorem valid_iff {definition : TypeDefinition} (h : definition.HasDistinctFields) :
    Valid definitions definition.schema value ↔
      ∃ members, value = .obj members ∧
        (∀ key inner, Table.get? members key = some inner →
          ∃ field ∈ definition.fields, field.name = key ∧
            Valid definitions field.kind.schema inner) ∧
        ∀ field ∈ definition.fields, field.required = true →
          field.name ∈ Table.keys members := by
  have hconstraints : Constraint.ofMembers [("properties", .obj definition.properties),
      ("required", definition.requiredJson), ("title", .str definition.name),
      ("type", .str "object")] = [.properties definition.properties,
        .required (definition.required.map .str), .type "object"] := rfl
  have hrequired : ∀ name, Json.str name ∈ definition.required.map .str ↔
      ∃ field ∈ definition.fields, field.required = true ∧ field.name = name := by
    intro name
    simp [required, and_assoc]
  rw [schema, valid_obj_iff, hconstraints, List.forall_mem_cons, List.forall_mem_cons,
    List.forall_mem_singleton, meets_type_iff]
  constructor
  · rintro ⟨hproperties, hpresent, htype⟩
    cases value with
    | obj members =>
      refine ⟨members, rfl, ?_, ?_⟩
      · intro key inner hinner
        obtain ⟨schema, hschema, hvalid⟩ := meets_properties_iff.mp hproperties key inner hinner
        obtain ⟨field, hfield, hname, rfl⟩ := (get?_properties_iff h).mp hschema
        exact ⟨field, hfield, hname, Property.valid_iff.mp hvalid⟩
      · intro field hfield hfieldRequired
        have hname := (hrequired field.name).mpr ⟨field, hfield, hfieldRequired, rfl⟩
        exact meets_required_iff.mp hpresent field.name hname
    | num number => cases number <;> simp [Json.typeNames] at htype
    | _ => simp [Json.typeNames] at htype
  · rintro ⟨members, rfl, hfields, hpresent⟩
    refine ⟨meets_properties_iff.mpr ?_, meets_required_iff.mpr ?_, by simp [Json.typeNames]⟩
    · intro key inner hinner
      obtain ⟨field, hfield, hname, hvalid⟩ := hfields key inner hinner
      have hschema := (get?_properties_iff h).mpr ⟨field, hfield, hname, rfl⟩
      exact ⟨field.schema, hschema, Property.valid_iff.mpr hvalid⟩
    · intro name hname
      obtain ⟨field, hfield, hfieldRequired, rfl⟩ := (hrequired name).mp hname
      exact hpresent field hfield hfieldRequired

end TypeDefinition

end LinkedSchema
