import LinkedSchema.Proofs.Conformity.Normal
import LinkedSchema.Proofs.Kind.NormalForm

/-!
# Null and nullable kinds

The walk asks a kind whether it is nullable before any value is seen, and the check finds out by
trying. Both come to the same: a kind is nullable exactly if null passes its check, in every tree.
A reference and a collection never take null, since null is neither an object nor an array, whatever
the tree says of the type and whatever the items take.
-/

namespace LinkedSchema

/-- Only null is equal to null. -/
theorem Json.equal_null_iff {value : Json} : value.equal .null = true ↔ value = .null := by
  cases value <;> simp [equal]

namespace SchemaTree

variable {tree : SchemaTree} {kind : Kind}

/-- No object is null, so null does not pass for a type. -/
theorem not_passes_null_reference (name : String) : ¬ tree.Passes (.reference name) .null := by
  intro hpasses
  obtain ⟨definition, -, hobject⟩ := passes_reference_iff.mp hpasses
  obtain ⟨members, hnull, -⟩ := exists_checkObject_iff.mp hobject
  cases hnull

/-- No array is null, so null does not pass for a collection. -/
theorem not_passes_null_collection (item : Kind) : ¬ tree.Passes (.collection item) .null := by
  intro hpasses
  obtain ⟨items, hnull, -⟩ := passes_collection_iff.mp hpasses
  cases hnull

/-- Null passes for the nullable kinds. -/
theorem passes_null_iff : tree.Passes kind .null ↔ kind.isNullable = true := by
  induction kind using Kind.induction with
  | scalar type =>
    rw [passes_scalar_iff]
    cases type <;> decide
  | enumeration literals =>
    rw [passes_enumeration_iff, Kind.isNullable]
    simp [Json.equal_null_iff]
  | reference name => exact iff_of_false (not_passes_null_reference name) Bool.false_ne_true
  | collection item ih => exact iff_of_false (not_passes_null_collection item) Bool.false_ne_true
  | union members ih =>
    rw [passes_union_iff, Kind.isNullable_union_iff]
    exact exists_congr fun kind => and_congr_right fun hkind => ih kind hkind
  | nullable inner ih =>
    have hpasses : tree.Passes (.nullable inner) .null := passes_nullable_iff.mpr (.inl rfl)
    exact iff_of_true hpasses rfl

/-- The check of null succeeds for the nullable kinds. -/
theorem isOk_check_null (tree : SchemaTree) (kind : Kind) :
    (tree.check kind .null).isOk = kind.isNullable := by
  rw [Bool.eq_iff_iff, ← @passes_null_iff tree, Passes]
  cases tree.check kind .null <;> simp [Except.isOk, Except.toBool]

/-- A kind is nullable exactly if the check of null against it succeeds, and then null is what the
check gives. So the references in a union stand behind an indirection, as the walk sees them, exactly
if one lies around the union or the check of null against the union succeeds. -/
theorem isNullable_iff_takes_null (tree : SchemaTree) (kind : Kind) :
    (kind.isNullable = true ↔ ∃ checked, tree.check kind .null = .ok checked) ∧
      (kind.isNullable = true ↔ tree.check kind .null = .ok .null) ∧
      ∀ members indirect, (Kind.union members).edges indirect =
        members.flatMap (Kind.edges (indirect || (tree.check (.union members) .null).isOk)) := by
  refine ⟨passes_null_iff.symm, ?_, ?_⟩
  · rw [← @passes_null_iff tree]
    constructor
    · rintro ⟨checked, hchecked⟩
      have hnull : checked = .null := eq_null_of_check hchecked
      rw [hchecked, hnull]
    · intro hnull
      exact ⟨.null, hnull⟩
  · intro members indirect
    have hunion : (tree.check (.union members) .null).isOk = Kind.anyNullable members :=
      isOk_check_null tree (.union members)
    rw [hunion, Kind.edges, Kind.edgesOfMembers_eq_flatMap]

end SchemaTree

end LinkedSchema
