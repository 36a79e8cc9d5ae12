import LinkedSchema.Proofs.Kind.References
import LinkedSchema.Proofs.Schema.Fragments

/-!
# References in schemas

The references of a schema stand at its top, in the schema of items or in alternatives. The schema
of a kind refers to the places of exactly the types that the kind mentions, and what a field adds to
it contains no reference, whatever its default may look like.
-/

namespace LinkedSchema

/-- A reference stands in a schema, at the top or in a schema inside it. -/
inductive Json.HasReference (pointer : String) : Json → Prop
  | here {members : List (String × Json)} :
    .reference pointer ∈ Constraint.ofMembers members → HasReference pointer (.obj members)
  | items {members : List (String × Json)} {schema : Json} :
    .items schema ∈ Constraint.ofMembers members → HasReference pointer schema →
    HasReference pointer (.obj members)
  | anyOf {members : List (String × Json)} {schemas : List Json} {schema : Json} :
    .anyOf schemas ∈ Constraint.ofMembers members → schema ∈ schemas →
    HasReference pointer schema → HasReference pointer (.obj members)

variable {pointer : String}

/-- The references of an object are those of the constraints of its members. -/
theorem Json.hasReference_obj_iff {members : List (String × Json)}
    {constraints : List Constraint} (h : Constraint.ofMembers members = constraints) :
    HasReference pointer (.obj members) ↔
      .reference pointer ∈ constraints ∨
        (∃ schema, .items schema ∈ constraints ∧ HasReference pointer schema) ∨
        ∃ schemas, .anyOf schemas ∈ constraints ∧
          ∃ schema ∈ schemas, HasReference pointer schema := by
  subst h
  constructor
  · rintro (h | ⟨hmem, h⟩ | ⟨hmem, hschema, h⟩)
    · exact .inl h
    · exact .inr (.inl ⟨_, hmem, h⟩)
    · exact .inr (.inr ⟨_, hmem, _, hschema, h⟩)
  · rintro (h | ⟨schema, hmem, h⟩ | ⟨schemas, hmem, schema, hschema, h⟩)
    · exact .here h
    · exact .items hmem h
    · exact .anyOf hmem hschema h

/-- The schema of null refers to nothing. -/
theorem not_hasReference_nullSchema : ¬ nullSchema.HasReference pointer := by
  have hconstraints : Constraint.ofMembers [("type", .str "null")] = [.type "null"] := rfl
  rw [nullSchema, Json.hasReference_obj_iff hconstraints]
  simp

/-- The references of the schema of a kind are the places of the types that the kind mentions. -/
theorem Kind.hasReference_schema_iff {kind : Kind} :
    kind.schema.HasReference pointer ↔
      ∃ target, kind.Mentions target ∧ pointer = definitionPointer target := by
  induction kind using Kind.induction with
  | scalar type =>
    have hnone : ∀ target, ¬ (Kind.scalar type).Mentions target := fun _ => not_mentions_scalar
    have hconstraints : Constraint.ofMembers
        (type.keyword?.map fun keyword => ("type", Json.str keyword)).toList =
          (type.keyword?.map Constraint.type).toList := by
      cases type <;> rfl
    rw [Kind.schema, Json.hasReference_obj_iff hconstraints]
    simp [hnone]
  | enumeration literals =>
    have hnone : ∀ target, ¬ (Kind.enumeration literals).Mentions target :=
      fun _ => not_mentions_enumeration
    have hconstraints : Constraint.ofMembers [("enum", .arr literals)] = [.enum literals] := rfl
    rw [Kind.schema, Json.hasReference_obj_iff hconstraints]
    simp [hnone]
  | reference name =>
    have hconstraints : Constraint.ofMembers [("$ref", .str (definitionPointer name))] =
        [.reference (definitionPointer name)] := rfl
    rw [Kind.schema, Json.hasReference_obj_iff hconstraints]
    simp [mentions_reference_iff]
  | collection item ih =>
    have hconstraints : Constraint.ofMembers [("type", .str "array"), ("items", item.schema)] =
        [.type "array", .items item.schema] := rfl
    rw [Kind.schema, Json.hasReference_obj_iff hconstraints]
    simp [mentions_collection_iff, ih]
  | union members ih =>
    have hconstraints : Constraint.ofMembers [("anyOf", .arr (schemaMembers members))] =
        [.anyOf (members.map Kind.schema)] := by
      rw [schemaMembers_eq_map]
      rfl
    rw [Kind.schema, Json.hasReference_obj_iff hconstraints]
    simp only [List.mem_singleton, reduceCtorEq, false_and, exists_false, false_or,
      Constraint.anyOf.injEq, exists_eq_left, List.mem_map,
      exists_exists_and_eq_and, mentions_union_iff]
    constructor
    · rintro ⟨kind, hmem, hreference⟩
      obtain ⟨target, hmentions, hpointer⟩ := (ih kind hmem).mp hreference
      exact ⟨target, ⟨kind, hmem, hmentions⟩, hpointer⟩
    · rintro ⟨target, ⟨kind, hmem, hmentions⟩, hpointer⟩
      exact ⟨kind, hmem, (ih kind hmem).mpr ⟨target, hmentions, hpointer⟩⟩
  | nullable inner ih =>
    have hconstraints : Constraint.ofMembers [("anyOf", .arr [inner.schema, nullSchema])] =
        [.anyOf [inner.schema, nullSchema]] := rfl
    rw [Kind.schema, Json.hasReference_obj_iff hconstraints]
    simp [mentions_nullable_iff, ih, not_hasReference_nullSchema]

/-- What a field adds to the schema of its kind refers to nothing. -/
theorem Property.hasReference_schema_iff {field : Property} :
    field.schema.HasReference pointer ↔
      ∃ target, field.kind.Mentions target ∧ pointer = definitionPointer target := by
  obtain ⟨members, hmembers⟩ := field.kind.exists_schema_eq_obj
  have hconstraints := Constraint.ofMembers_insertAll field.ofMember?_annotation members
  rw [← Kind.hasReference_schema_iff, schema, hmembers, Json.hasReference_obj_iff hconstraints,
    Json.hasReference_obj_iff rfl]

end LinkedSchema
