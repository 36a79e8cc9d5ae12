import LinkedSchema.Proofs.Conformity.Check
import LinkedSchema.Proofs.Json.Equality
import LinkedSchema.Proofs.Kind.Normal

/-!
# Checks for normal kinds

What a check gives for a value depends on the members of a union one after another, and the first
that takes the value decides. So the members of a union inside may stand in its place, and a member
may be dropped where an equal one stands before it: equal kinds take the same values, and of the two
only the first can be the one that decides. Null is given as null by every member that takes it. A
kind and its normal form therefore take the same values and give the same for them.
-/

namespace LinkedSchema.SchemaTree

open Kind (alternatives distinct keepNew normalizeMembers)

variable {tree : SchemaTree} {kind other : Kind} {value checked : Json}

/-- What the check gives for a value, nothing for a value that it refuses. -/
def taken? (tree : SchemaTree) (kind : Kind) (value : Json) : Option Json :=
  (tree.check kind value).toOption

/-- What a kind takes is what the check gives. -/
theorem taken?_eq_some_iff :
    tree.taken? kind value = some checked ↔ tree.check kind value = .ok checked := by
  unfold taken?
  cases tree.check kind value <;> simp [Except.toOption]

/-- A kind takes nothing of the values that do not pass. -/
theorem taken?_eq_none_iff : tree.taken? kind value = none ↔ ¬ tree.Passes kind value := by
  simp only [Passes, ← taken?_eq_some_iff, ← Option.isSome_iff_exists, Option.not_isSome_iff_eq_none]

section Unions

variable {members others : List Kind}

/-- The first member decides, or else the members after it. -/
theorem firstFit_cons :
    tree.firstFit (kind :: members) value =
      (tree.taken? kind value).or (tree.firstFit members value) := by
  rw [firstFit, taken?]
  cases tree.check kind value <;> rfl

/-- The members of one list decide, or else those of the next. -/
theorem firstFit_append :
    tree.firstFit (members ++ others) value =
      (tree.firstFit members value).or (tree.firstFit others value) := by
  induction members with
  | nil => simp [firstFit]
  | cons kind members ih => rw [List.cons_append, firstFit_cons, firstFit_cons, ih, Option.or_assoc]

/-- The only member decides alone. -/
theorem firstFit_singleton : tree.firstFit [kind] value = tree.taken? kind value := by
  rw [firstFit_cons, firstFit, Option.or_none]

/-- A union gives what the first fitting member gives. -/
theorem taken?_union : tree.taken? (.union members) value = tree.firstFit members value := by
  ext checked
  rw [taken?_eq_some_iff, check_union_iff]

/-- What a kind contributes to a union decides as the kind does. -/
theorem firstFit_alternatives : tree.firstFit (alternatives kind) value = tree.taken? kind value := by
  cases kind with
  | union members => exact taken?_union.symm
  | _ => exact firstFit_singleton

end Unions

/-- Of two equal kinds the first takes what the second takes. -/
theorem passes_of_equal (hequal : kind.equal other = true) (h : tree.Passes other value) :
    tree.Passes kind value := by
  have hkeeps : ∀ value, tree.Passes other value → tree.Passes kind value := by
    refine Kind.induction_of_equal
      ?scalar ?enumeration ?reference ?collection ?union ?nullable hequal
    case scalar => exact fun _ _ => id
    case enumeration =>
      intro literals others hliterals value h
      rw [passes_enumeration_iff, List.any_eq_true] at h ⊢
      obtain ⟨literal, hliteral, hvalue⟩ := h
      obtain ⟨earlier, hearlier, hsame⟩ :=
        exists_mem_of_forall₂ (Json.equalItems_iff.mp hliterals) hliteral
      exact ⟨earlier, hearlier, Json.equal_trans hsame hvalue⟩
    case reference => exact fun _ _ => id
    case collection =>
      intro item other ih value h
      rw [passes_collection_iff] at h ⊢
      obtain ⟨items, hvalue, hitems⟩ := h
      exact ⟨items, hvalue, fun inner hinner => ih inner (hitems inner hinner)⟩
    case union =>
      intro members others _ ih value h
      rw [passes_union_iff] at h ⊢
      obtain ⟨member, hmember, hpasses⟩ := h
      obtain ⟨earlier, hearlier, hpass⟩ := exists_mem_of_forall₂ ih hmember
      exact ⟨earlier, hearlier, hpass value hpasses⟩
    case nullable =>
      intro inner other ih value h
      rw [passes_nullable_iff] at h ⊢
      exact h.imp_right (ih value)
  exact hkeeps value h

/-- A kind that is not kept because of an equal one before it would never have decided. -/
theorem firstFit_keepNew {kept : List Kind} :
    tree.firstFit (keepNew kept kind) value = tree.firstFit (kept ++ [kind]) value := by
  unfold keepNew
  split
  · next hany =>
    obtain ⟨earlier, hearlier, hequal⟩ := List.any_eq_true.mp hany
    rw [firstFit_append, firstFit_singleton]
    cases htaken : tree.taken? kind value with
    | none => rw [Option.or_none]
    | some checked =>
      obtain ⟨given, hgiven⟩ := passes_of_equal hequal ⟨checked, taken?_eq_some_iff.mp htaken⟩
      obtain ⟨result, hresult⟩ := exists_firstFit hearlier hgiven
      rw [hresult, Option.some_or]
  · rfl

/-- Dropping repeated members does not change what the members give. -/
theorem firstFit_distinct {kinds : List Kind} :
    tree.firstFit (distinct kinds) value = tree.firstFit kinds value := by
  -- The invariant is about the kinds kept so far followed by those still to come.
  have hstep : ∀ kept, tree.firstFit (kinds.foldl keepNew kept) value =
      tree.firstFit (kept ++ kinds) value := by
    induction kinds with
    | nil => simp
    | cons first rest ih =>
      intro kept
      rw [List.foldl_cons, ih, firstFit_append, firstFit_keepNew, ← firstFit_append,
        List.append_assoc, List.singleton_append]
  exact hstep []

/-- Members whose normal forms give what they give contribute to a normal union what they give. -/
theorem firstFit_normalizeMembers {members : List Kind}
    (h : ∀ kind ∈ members, tree.taken? kind.normalize value = tree.taken? kind value) :
    tree.firstFit (normalizeMembers members) value = tree.firstFit members value := by
  induction members with
  | nil => rfl
  | cons kind members ih =>
    obtain ⟨hkind, hmembers⟩ := List.forall_mem_cons.mp h
    rw [normalizeMembers, firstFit_append, firstFit_alternatives, hkind, ih hmembers, firstFit_cons]

/-- Null is given as null wherever it is taken. -/
theorem eq_null_of_check (h : tree.check kind .null = .ok checked) : checked = .null := by
  induction kind using Kind.induction with
  | scalar type => exact (check_scalar_iff.mp h).2
  | enumeration literals => exact (check_enumeration_iff.mp h).2
  | reference name =>
    obtain ⟨definition, -, data, hdata⟩ := passes_reference_iff.mp ⟨checked, h⟩
    obtain ⟨members, -, hobject, -⟩ := checkObject_eq_ok_iff.mp hdata
    cases hobject
  | collection item ih =>
    obtain ⟨items, results, harray, -⟩ := check_collection_iff.mp h
    cases harray
  | union members ih =>
    obtain ⟨member, hmember, hfits⟩ := check_of_firstFit (check_union_iff.mp h)
    exact ih member hmember hfits
  | nullable inner ih =>
    rcases check_nullable_iff.mp h with ⟨-, hnull⟩ | ⟨hne, -⟩
    · exact hnull
    · exact absurd rfl hne

/-- What takes null besides gives what a nullable variant gives. -/
theorem taken?_or_null {inner : Kind} :
    (tree.taken? inner value).or (tree.taken? .null value) =
      tree.taken? (.nullable inner) value := by
  ext checked
  rw [taken?_eq_some_iff, check_nullable_iff]
  by_cases hvalue : value = .null
  · subst hvalue
    have hnull : tree.taken? .null .null = some .null :=
      taken?_eq_some_iff.mpr (check_scalar_iff.mpr ⟨rfl, rfl⟩)
    rw [hnull]
    cases htaken : tree.taken? inner .null with
    | none => simp [eq_comm]
    | some given =>
      obtain rfl := eq_null_of_check (taken?_eq_some_iff.mp htaken)
      simp [eq_comm]
  · have hnone : tree.taken? .null value = none := by
      rw [taken?_eq_none_iff, Kind.null, passes_scalar_iff]
      cases value <;> simp_all [ScalarType.accepts]
    rw [hnone, Option.or_none, taken?_eq_some_iff]
    simp [hvalue]

/-- The normal form of a kind gives for each value what the kind gives. -/
theorem taken?_normalize (tree : SchemaTree) (kind : Kind) (value : Json) :
    tree.taken? kind.normalize value = tree.taken? kind value := by
  induction kind using Kind.induction generalizing value with
  | scalar type => rfl
  | enumeration literals => rfl
  | reference name => rfl
  | collection item ih =>
    have hitem : ∀ inner result,
        tree.check item.normalize inner = .ok result ↔ tree.check item inner = .ok result := by
      intro inner result
      rw [← taken?_eq_some_iff, ih, taken?_eq_some_iff]
    ext checked
    rw [Kind.normalize, taken?_eq_some_iff, taken?_eq_some_iff, check_collection_iff,
      check_collection_iff]
    simp only [hitem]
  | union members ih =>
    rw [Kind.normalize, taken?_union, firstFit_distinct,
      firstFit_normalizeMembers fun kind hkind => ih kind hkind value, taken?_union]
  | nullable inner ih =>
    rw [Kind.normalize, taken?_union, firstFit_distinct, firstFit_append, firstFit_alternatives,
      firstFit_singleton, ih, taken?_or_null]

/-- A value passes the check for the normal form of a kind exactly if it passes that for the kind,
and both give the same for it. -/
theorem check_normalize_iff (tree : SchemaTree) (kind : Kind) (value checked : Json) :
    tree.check kind.normalize value = .ok checked ↔ tree.check kind value = .ok checked := by
  rw [← taken?_eq_some_iff, taken?_normalize, taken?_eq_some_iff]

end LinkedSchema.SchemaTree
