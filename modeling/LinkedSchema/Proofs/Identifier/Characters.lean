import LinkedSchema.Proofs.Identifier.Form

/-!
# The characters of identifiers

A text in the form of an identifier has no white space and none of the printable characters that an
IRI forbids, neither in the scheme nor in the rest. It may still have control characters in the
rest, as far as they are no white space. The well-formed identifiers are the texts of this form that
have none.
-/

namespace LinkedSchema.Identifier

variable {c : Char} {s : String}

/-- The control characters of Unicode: the first thirty-two, and those from the delete character up
to the second block of thirty-two. -/
def isControl (c : Char) : Bool :=
  c.toNat ≤ 0x1F || 0x7F ≤ c.toNat && c.toNat ≤ 0x9F

/-- A text is a well-formed identifier: it is a scheme or prefix that starts with a letter, a colon
and a rest of at least one character, and it has no white space, no control character and none of
the printable characters that an IRI forbids. -/
structure IsWellFormed (s : String) : Prop where
  split : ∃ first scheme rest, s.toList = first :: scheme ++ ':' :: rest ∧ isLetter first = true ∧
    (∀ c ∈ scheme, isSchemeChar c = true) ∧ rest ≠ []
  notBlank : ∀ c ∈ s.toList, Text.isBlank c = false
  notControl : ∀ c ∈ s.toList, isControl c = false
  permitted : ∀ c ∈ s.toList, c ∉ forbidden

/-- The characters of a scheme stand between the space and the delete character. -/
theorem toNat_of_isSchemeChar (h : isSchemeChar c = true) : 0x20 < c.toNat ∧ c.toNat < 0x7F := by
  have hrange : ∀ {low high : Char}, 0x20 < low.toNat → high.toNat < 0x7F → low ≤ c ∧ c ≤ high →
      0x20 < c.toNat ∧ c.toNat < 0x7F :=
    fun hlow hhigh h => ⟨Nat.lt_of_lt_of_le hlow h.1, Nat.lt_of_le_of_lt h.2 hhigh⟩
  simp only [isSchemeChar, isLetter, Bool.or_eq_true, Bool.and_eq_true, decide_eq_true_eq] at h
  rcases h with (((((h | h) | h) | rfl) | rfl) | rfl) | rfl
  · exact hrange (by decide) (by decide) h
  · exact hrange (by decide) (by decide) h
  · exact hrange (by decide) (by decide) h
  all_goals decide

/-- A character between the space and the delete character is no white space and no control
character. -/
theorem not_isBlank_of_toNat (h : 0x20 < c.toNat ∧ c.toNat < 0x7F) :
    Text.isBlank c = false ∧ isControl c = false := by
  simp [Text.isBlank, Text.blankRanges, isControl]
  omega

/-- No character of a scheme is forbidden. -/
theorem notMem_forbidden_of_isSchemeChar (h : isSchemeChar c = true) : c ∉ forbidden := by
  intro hc
  simp only [forbidden, List.mem_cons, List.not_mem_nil, or_false] at hc
  rcases hc with rfl | rfl | rfl | rfl | rfl | rfl | rfl | rfl | rfl <;> cases h

/-- A character may stand in the rest of an identifier if it is neither blank nor forbidden. -/
theorem isRestChar_iff : isRestChar c = true ↔ Text.isBlank c = false ∧ c ∉ forbidden := by
  simp [isRestChar]

/-- In a text in the form of an identifier each character is one of a scheme, the colon, or one of
the rest. -/
theorem HasForm.isRestChar (h : HasForm s) : ∀ c ∈ s.toList, isRestChar c = true := by
  obtain ⟨first, scheme, rest, hs, hfirst, hscheme, -, hrest⟩ := h
  have hpart : ∀ c, isSchemeChar c = true → Identifier.isRestChar c = true := fun c hc =>
    isRestChar_iff.mpr ⟨(not_isBlank_of_toNat (toNat_of_isSchemeChar hc)).1,
      notMem_forbidden_of_isSchemeChar hc⟩
  rw [hs, List.cons_append, List.forall_mem_cons, List.forall_mem_append, List.forall_mem_cons]
  exact ⟨hpart first (isSchemeChar_of_isLetter hfirst), fun c hc => hpart c (hscheme c hc),
    by decide, hrest⟩

/-- The well-formed identifiers are the texts in the form of an identifier without control
characters. -/
theorem isWellFormed_iff :
    IsWellFormed s ↔ HasForm s ∧ ∀ c ∈ s.toList, isControl c = false := by
  constructor
  · rintro ⟨⟨first, scheme, rest, hs, hfirst, hscheme, hne⟩, hblank, hcontrol, hpermitted⟩
    refine ⟨⟨first, scheme, rest, hs, hfirst, hscheme, hne, fun c hc => ?_⟩, hcontrol⟩
    have hmem : c ∈ s.toList := by
      rw [hs]
      exact List.mem_append_right _ (List.mem_cons_of_mem _ hc)
    exact isRestChar_iff.mpr ⟨hblank c hmem, hpermitted c hmem⟩
  · rintro ⟨hform, hcontrol⟩
    have hrest := hform.isRestChar
    obtain ⟨first, scheme, rest, hs, hfirst, hscheme, hne, -⟩ := hform
    exact ⟨⟨first, scheme, rest, hs, hfirst, hscheme, hne⟩,
      fun c hc => (isRestChar_iff.mp (hrest c hc)).1, hcontrol,
      fun c hc => (isRestChar_iff.mp (hrest c hc)).2⟩

end LinkedSchema.Identifier
