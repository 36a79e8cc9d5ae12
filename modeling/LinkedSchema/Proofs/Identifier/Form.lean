import LinkedSchema.Identifier
import Mathlib.Data.List.TakeWhile

/-!
# The form of identifiers

The check of an identifier looks for the longest scheme at the front. What it accepts is a scheme
that starts with a letter, a colon and a rest: as no colon stands in a scheme, there is only one way
to read a text like this.
-/

namespace LinkedSchema.Identifier

/-- A text is a scheme or prefix that starts with a letter, a colon, and a rest of at least one
character. -/
def HasForm (s : String) : Prop :=
  ∃ first scheme rest, s.toList = first :: scheme ++ ':' :: rest ∧ isLetter first = true ∧
    (∀ c ∈ scheme, isSchemeChar c = true) ∧ rest ≠ [] ∧ ∀ c ∈ rest, isRestChar c = true

/-- A letter may stand in a scheme. -/
theorem isSchemeChar_of_isLetter {c : Char} (h : isLetter c = true) : isSchemeChar c = true := by
  simp [isSchemeChar, h]

/-- The colon, which ends a scheme, may not stand in one. -/
theorem not_isSchemeChar_colon : isSchemeChar ':' = false := by
  decide

/-- A text is split at a colon exactly if scheme characters alone stand before it. -/
theorem split?_eq_some_iff {s : String} {scheme rest : List Char} :
    split? s = some (scheme, rest) ↔
      s.toList = scheme ++ ':' :: rest ∧ ∀ c ∈ scheme, isSchemeChar c = true := by
  have htogether := List.takeWhile_append_dropWhile (p := isSchemeChar) (l := s.toList)
  constructor
  · intro h
    unfold split? at h
    split at h
    · next others hothers =>
      obtain ⟨rfl, rfl⟩ := Prod.mk.inj (Option.some.inj h)
      rw [hothers] at htogether
      exact ⟨htogether.symm, fun c hc => List.mem_takeWhile_imp hc⟩
    · cases h
  · rintro ⟨hs, hscheme⟩
    have htake : s.toList.takeWhile isSchemeChar = scheme := by
      rw [hs, List.takeWhile_append_of_pos hscheme, List.takeWhile_cons, not_isSchemeChar_colon]
      simp
    have hdrop : s.toList.dropWhile isSchemeChar = ':' :: rest := by
      rw [hs, List.dropWhile_append_of_pos hscheme, List.dropWhile_cons, not_isSchemeChar_colon]
      simp
    simp only [split?, hdrop, htake]

/-- What the check accepts are the texts of this form. -/
theorem isValid_iff {s : String} : isValid s = true ↔ HasForm s := by
  constructor
  · intro h
    unfold isValid at h
    split at h
    · next first scheme c rest hsplit =>
      obtain ⟨hs, hscheme⟩ := split?_eq_some_iff.mp hsplit
      obtain ⟨hfirst, hrest⟩ := Bool.and_eq_true_iff.mp h
      exact ⟨first, scheme, c :: rest, hs, hfirst,
        fun other hother => hscheme other (List.mem_cons_of_mem _ hother), by simp,
        List.all_eq_true.mp hrest⟩
    · cases h
  · rintro ⟨first, scheme, rest, hs, hfirst, hscheme, hne, hrest⟩
    have hsplit : split? s = some (first :: scheme, rest) := by
      refine split?_eq_some_iff.mpr ⟨hs, ?_⟩
      intro c hc
      rcases List.mem_cons.mp hc with rfl | hc
      · exact isSchemeChar_of_isLetter hfirst
      · exact hscheme c hc
    obtain ⟨c, others, rfl⟩ := List.exists_cons_of_ne_nil hne
    unfold isValid
    rw [hsplit]
    exact Bool.and_eq_true_iff.mpr ⟨hfirst, List.all_eq_true.mpr hrest⟩

end LinkedSchema.Identifier
