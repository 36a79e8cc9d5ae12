import LinkedSchema.Proofs.Conformity.Agreement
import LinkedSchema.Proofs.Introspection.Reordering

/-!
# The order of declaration in checks

An object passes a check field by field, so the order of the fields of a definition does not matter
to what passes. It matters only to the order in which the check gives them back.
-/

namespace LinkedSchema.SchemaTree

variable {tree other : SchemaTree} {definition found : TypeDefinition} {value : Json}

/-- A field can be filled in one tree if it can be in another, where the given member passes in both
or in none. -/
theorem exists_fills_congr {members : List (String × Json)} {field : Property}
    (hgiven : ∀ inner, Table.get? members field.name = some inner →
      (tree.Passes field.kind inner ↔ other.Passes field.kind inner)) :
    (∃ checked, tree.Fills members field checked) ↔
      ∃ checked, other.Fills members field checked := by
  unfold Fills
  cases hget : Table.get? members field.name with
  | some inner => exact hgiven inner hget
  | none => exact Iff.rfl

/-- Objects fit reordered definitions alike where all smaller values pass alike. -/
theorem checkObject_congr (hdefinitions : definition.Reordered found)
    (hsmaller : ∀ inner : Json, inner.size < value.size → ∀ kind,
      tree.Passes kind inner ↔ other.Passes kind inner) :
    (∃ data, tree.checkObject definition value = .ok data) ↔
      ∃ data, other.checkObject found value = .ok data := by
  rw [exists_checkObject_iff, exists_checkObject_iff]
  refine exists_congr fun members => and_congr_right fun hvalue => ?_
  simp only [hdefinitions.fields.mem_iff]
  refine and_congr_right fun _ => forall₂_congr fun field _ => exists_fills_congr ?_
  intro inner hinner
  subst hvalue
  exact hsmaller inner (size_lt_of_get? hinner) field.kind

/-- The same values pass in reordered trees. -/
theorem Reordered.passes_iff (h : tree.Reordered other) (kind : Kind) (value : Json) :
    tree.Passes kind value ↔ other.Passes kind value := by
  induction hsize : value.size using Nat.strongRecOn generalizing kind value with
  | ind size ihvalue =>
    subst hsize
    -- As for the agreement with schemas: references and collections go on to smaller values.
    induction kind using Kind.induction with
    | scalar type => rw [passes_scalar_iff, passes_scalar_iff]
    | enumeration literals => rw [passes_enumeration_iff, passes_enumeration_iff]
    | reference name =>
      have hobject : ∀ {definition found : TypeDefinition}, definition.Reordered found →
          ((∃ data, tree.checkObject definition value = .ok data) ↔
            ∃ data, other.checkObject found value = .ok data) :=
        fun hdefinitions => checkObject_congr hdefinitions
          fun inner hsmaller kind => ihvalue inner.size hsmaller kind inner rfl
      rw [passes_reference_iff, passes_reference_iff]
      constructor
      · rintro ⟨definition, hdefinition, hpasses⟩
        obtain ⟨found, hfound, hdefinitions⟩ := exists_of_rel (h.get? name) hdefinition
        exact ⟨found, hfound, (hobject hdefinitions).mp hpasses⟩
      · rintro ⟨found, hfound, hpasses⟩
        obtain ⟨definition, hdefinition, hdefinitions⟩ :=
          exists_of_rel (h.symm.get? name) hfound
        exact ⟨definition, hdefinition, (hobject hdefinitions.symm).mpr hpasses⟩
    | collection item ih =>
      rw [passes_collection_iff, passes_collection_iff]
      refine exists_congr fun items => and_congr_right fun hvalue => ?_
      subst hvalue
      refine forall₂_congr fun inner hinner => ?_
      have hsmaller := Json.size_le_of_mem hinner
      exact ihvalue inner.size (by simp only [Json.size]; omega) item inner rfl
    | union members ih =>
      rw [passes_union_iff, passes_union_iff]
      exact exists_congr fun kind => and_congr_right fun hkind => ih kind hkind
    | nullable inner ih =>
      rw [passes_nullable_iff, passes_nullable_iff]
      exact or_congr_right ih

end LinkedSchema.SchemaTree
