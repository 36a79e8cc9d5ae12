import LinkedSchema.Proofs.Kind.References

/-!
# Normal kinds mention what the kinds mention

Dropping repeated members keeps an equal member for each dropped one, and merging a union into the
union around it keeps its members. So a kind and its normal form mention the same types.
-/

namespace LinkedSchema.Kind

/-- One step of dropping repeated members: a kind is kept unless an equal one was kept before. -/
def keepNew (kept : List Kind) (kind : Kind) : List Kind :=
  if kept.any (·.equal kind) then kept else kept ++ [kind]

/-- Keeping one more kind adds at most this kind. -/
theorem mem_keepNew {kept : List Kind} {kind other : Kind} (h : other ∈ keepNew kept kind) :
    other ∈ kept ∨ other = kind := by
  unfold keepNew at h
  split at h
  · exact .inl h
  · simpa using h

/-- What was kept stays. -/
theorem mem_keepNew_of_mem {kept : List Kind} {kind other : Kind} (h : other ∈ kept) :
    other ∈ keepNew kept kind := by
  unfold keepNew
  split
  · exact h
  · exact List.mem_append_left _ h

/-- A kind that was met is kept itself, or an equal one stands for it. -/
theorem exists_mem_keepNew (kept : List Kind) (kind : Kind) :
    ∃ other ∈ keepNew kept kind, other = kind ∨ other.equal kind = true := by
  unfold keepNew
  split
  · next hany =>
    obtain ⟨other, hother, hequal⟩ := List.any_eq_true.mp hany
    exact ⟨other, hother, .inr hequal⟩
  · exact ⟨kind, by simp, .inl rfl⟩

/-- Only kinds of the list are kept. -/
theorem mem_of_mem_distinct {kinds : List Kind} {kind : Kind} (h : kind ∈ distinct kinds) :
    kind ∈ kinds := by
  have hstep : ∀ kept, kind ∈ kinds.foldl keepNew kept → kind ∈ kept ∨ kind ∈ kinds := by
    clear h
    induction kinds with
    | nil => exact fun kept h => .inl h
    | cons first rest ih =>
      intro kept h
      rcases ih _ h with h | h
      · rcases mem_keepNew h with h | rfl
        · exact .inl h
        · exact .inr List.mem_cons_self
      · exact .inr (List.mem_cons_of_mem _ h)
  simpa using hstep [] h

/-- For every kind of the list an equal one is kept. -/
theorem exists_mem_distinct {kinds : List Kind} {kind : Kind} (h : kind ∈ kinds) :
    ∃ other ∈ distinct kinds, other = kind ∨ other.equal kind = true := by
  have hstay : ∀ (rest kept : List Kind) (other : Kind), other ∈ kept →
      other ∈ rest.foldl keepNew kept := by
    intro rest
    induction rest with
    | nil => exact fun kept other h => h
    | cons first rest ih => exact fun kept other h => ih _ _ (mem_keepNew_of_mem h)
  have hmeet : ∀ kept, ∃ other ∈ kinds.foldl keepNew kept,
      other = kind ∨ other.equal kind = true := by
    induction kinds with
    | nil => simp at h
    | cons first rest ih =>
      intro kept
      rcases List.mem_cons.mp h with rfl | h
      · obtain ⟨other, hother, hequal⟩ := exists_mem_keepNew kept kind
        exact ⟨other, hstay rest _ other hother, hequal⟩
      · exact ih h _
  exact hmeet []

/-- What equal kinds have in common is found among the kept kinds exactly if it is found at all. -/
theorem exists_mem_distinct_iff {holds : Kind → Prop} {kinds : List Kind}
    (hequal : ∀ kind other, kind.equal other = true → (holds kind ↔ holds other)) :
    (∃ kind ∈ distinct kinds, holds kind) ↔ ∃ kind ∈ kinds, holds kind := by
  constructor
  · rintro ⟨kind, hkind, hholds⟩
    exact ⟨kind, mem_of_mem_distinct hkind, hholds⟩
  · rintro ⟨kind, hkind, hholds⟩
    obtain ⟨kept, hkept, rfl | hsame⟩ := exists_mem_distinct hkind
    · exact ⟨kept, hkept, hholds⟩
    · exact ⟨kept, hkept, (hequal kept kind hsame).mpr hholds⟩

/-- It is found in a normal union exactly if it is found in the union, provided that each member has
it exactly if one of the members that its normal form contributes has it. -/
theorem exists_mem_normal_union_iff {holds : Kind → Prop} {members : List Kind}
    (hequal : ∀ kind other, kind.equal other = true → (holds kind ↔ holds other))
    (hmember : ∀ member ∈ members,
      (∃ kind ∈ alternatives member.normalize, holds kind) ↔ holds member) :
    (∃ kind ∈ distinct (normalizeMembers members), holds kind) ↔
      ∃ member ∈ members, holds member := by
  rw [exists_mem_distinct_iff hequal, normalizeMembers_eq_flatMap]
  constructor
  · rintro ⟨kind, hkind, hholds⟩
    obtain ⟨member, hmem, hkind⟩ := List.mem_flatMap.mp hkind
    exact ⟨member, hmem, (hmember member hmem).mp ⟨kind, hkind, hholds⟩⟩
  · rintro ⟨member, hmem, hholds⟩
    obtain ⟨kind, hkind, hholds⟩ := (hmember member hmem).mpr hholds
    exact ⟨kind, List.mem_flatMap.mpr ⟨member, hmem, hkind⟩, hholds⟩

/-- What a kind contributes to a union mentions what the kind mentions. -/
theorem exists_mem_alternatives_iff {type : String} {kind : Kind} :
    (∃ other ∈ alternatives kind, Mentions type other) ↔ Mentions type kind := by
  cases kind <;> simp [alternatives, mentions_union_iff]

/-- A kind and its normal form mention the same types. -/
theorem mentions_normalize_iff {type : String} {kind : Kind} :
    kind.normalize.Mentions type ↔ kind.Mentions type := by
  induction kind using Kind.induction with
  | scalar scalar => rfl
  | enumeration literals => rfl
  | reference name => rfl
  | collection item ih => rw [normalize, mentions_collection_iff, ih, mentions_collection_iff]
  | nullable inner ih =>
    rw [normalize, mentions_union_iff, exists_mem_distinct_iff fun _ _ => mentions_iff_of_equal,
      mentions_nullable_iff, ← ih, ← @exists_mem_alternatives_iff type (normalize inner)]
    simp [or_and_right, exists_or, Kind.null, not_mentions_scalar]
  | union members ih =>
    rw [normalize, mentions_union_iff, mentions_union_iff]
    refine exists_mem_normal_union_iff (fun _ _ => mentions_iff_of_equal) fun member hmember => ?_
    rw [exists_mem_alternatives_iff, ih member hmember]

end LinkedSchema.Kind
