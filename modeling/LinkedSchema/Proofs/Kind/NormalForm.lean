import LinkedSchema.Proofs.Kind.Normal

/-!
# Normal forms

A normal form has no nullable inside, no union directly in a union, and no member of a union equal
to one before it; the kinds of this form are those that are their own normal form. Bringing a kind
into normal form changes neither whether it takes null, nor which types it refers to, in which
order, and which of them directly. The members that are merged or dropped leave others behind that
take null alike and refer to the same types at an earlier place.
-/

namespace LinkedSchema.Kind

variable {type : String} {kind other : Kind} {kinds members : List Kind}

/-- Nowhere in a kind stands a nullable, a union directly in a union, or a member of a union that is
equal to an earlier one. -/
inductive IsNormal : Kind → Prop
  | scalar (type : ScalarType) : IsNormal (.scalar type)
  | enumeration (literals : List Json) : IsNormal (.enumeration literals)
  | reference (name : String) : IsNormal (.reference name)
  | collection {item : Kind} : IsNormal item → IsNormal (.collection item)
  | union {members : List Kind} : (∀ kind ∈ members, IsNormal kind) →
    (∀ kind ∈ members, ∀ inner, kind ≠ .union inner) →
    members.Pairwise (fun kind later => kind.equal later = false) → IsNormal (.union members)

section Distinct

/-- Keeping only kinds that are new keeps the kept ones apart. -/
theorem pairwise_keepNew (h : kinds.Pairwise fun kind later => kind.equal later = false)
    (kind : Kind) : (keepNew kinds kind).Pairwise fun kind later => kind.equal later = false := by
  unfold keepNew
  split
  · exact h
  · next hnew =>
    rw [Bool.not_eq_true, List.any_eq_false] at hnew
    rw [List.pairwise_append]
    refine ⟨h, List.pairwise_singleton _ _, ?_⟩
    intro earlier hearlier later hlater
    obtain rfl := List.mem_singleton.mp hlater
    simpa using hnew earlier hearlier

/-- Without the repeated ones, no kind of a list is equal to an earlier one. -/
theorem pairwise_distinct (kinds : List Kind) :
    (distinct kinds).Pairwise fun kind later => kind.equal later = false := by
  have hstep : ∀ kept : List Kind, (kept.Pairwise fun kind later => kind.equal later = false) →
      (kinds.foldl keepNew kept).Pairwise fun kind later => kind.equal later = false := by
    induction kinds with
    | nil => exact fun kept h => h
    | cons first rest ih => exact fun kept h => ih _ (pairwise_keepNew h first)
  exact hstep [] .nil

/-- Where no kind is equal to an earlier one, none is dropped. -/
theorem distinct_of_pairwise (h : kinds.Pairwise fun kind later => kind.equal later = false) :
    distinct kinds = kinds := by
  have hstep : ∀ kept : List Kind,
      ((kept ++ kinds).Pairwise fun kind later => kind.equal later = false) →
      kinds.foldl keepNew kept = kept ++ kinds := by
    clear h
    induction kinds with
    | nil => simp
    | cons first rest ih =>
      intro kept h
      have hnew : kept.any (·.equal first) = false := by
        rw [List.any_eq_false]
        intro earlier hearlier
        simpa using (List.pairwise_append.mp h).2.2 earlier hearlier first List.mem_cons_self
      have hkept : keepNew kept first = kept ++ [first] := by
        rw [keepNew, hnew]
        rfl
      rw [List.append_cons] at h ⊢
      rw [List.foldl_cons, hkept]
      exact ih _ h
  exact hstep [] h

end Distinct

section Normal

/-- A member of a normal union is normal and no union, and so is any other normal kind. -/
theorem IsNormal.of_mem_alternatives (h : kind.IsNormal) (hother : other ∈ alternatives kind) :
    other.IsNormal ∧ ∀ inner, other ≠ .union inner := by
  cases h with
  | union hmembers hflat hdistinct => exact ⟨hmembers other hother, hflat other hother⟩
  | _ =>
    obtain rfl := List.mem_singleton.mp hother
    exact ⟨by constructor <;> assumption, by simp⟩

/-- A union is normal once the repeated ones of its flat and normal members are dropped. -/
theorem isNormal_union_distinct
    (h : ∀ kind ∈ kinds, kind.IsNormal ∧ ∀ inner, kind ≠ .union inner) :
    (Kind.union (distinct kinds)).IsNormal :=
  .union (fun kind hkind => (h kind (mem_of_mem_distinct hkind)).1)
    (fun kind hkind => (h kind (mem_of_mem_distinct hkind)).2) (pairwise_distinct kinds)

/-- A normal form is normal. -/
theorem isNormal_normalize (kind : Kind) : kind.normalize.IsNormal := by
  induction kind using Kind.induction with
  | scalar type => exact .scalar type
  | enumeration literals => exact .enumeration literals
  | reference name => exact .reference name
  | collection item ih => exact .collection ih
  | nullable inner ih =>
    refine isNormal_union_distinct fun kind hkind => ?_
    rcases List.mem_append.mp hkind with hkind | hkind
    · exact ih.of_mem_alternatives hkind
    · obtain rfl := List.mem_singleton.mp hkind
      exact ⟨.scalar .null, by simp [Kind.null]⟩
  | union members ih =>
    refine isNormal_union_distinct fun kind hkind => ?_
    rw [normalizeMembers_eq_flatMap] at hkind
    obtain ⟨member, hmember, hkind⟩ := List.mem_flatMap.mp hkind
    exact (ih member hmember).of_mem_alternatives hkind

/-- A kind that is no union contributes itself to a union. -/
theorem alternatives_of_ne_union (h : ∀ inner, kind ≠ .union inner) :
    alternatives kind = [kind] := by
  cases kind with
  | union members => exact absurd rfl (h members)
  | _ => rfl

/-- A normal kind is its own normal form. -/
theorem IsNormal.normalize_eq (h : kind.IsNormal) : kind.normalize = kind := by
  induction h with
  | scalar type => rfl
  | enumeration literals => rfl
  | reference name => rfl
  | collection _ ih => rw [normalize, ih]
  | @union members _ hflat hdistinct ih =>
    have hmembers : normalizeMembers members = members := by
      rw [normalizeMembers_eq_flatMap]
      calc members.flatMap (fun kind => alternatives kind.normalize)
          = members.flatMap fun kind => [kind] := by
            refine List.flatMap_congr fun kind hkind => ?_
            rw [ih kind hkind, alternatives_of_ne_union (hflat kind hkind)]
        _ = members := List.flatMap_singleton' members
    rw [normalize, hmembers, distinct_of_pairwise hdistinct]

/-- The normal kinds are those that are their own normal form. -/
theorem isNormal_iff : kind.IsNormal ↔ kind.normalize = kind :=
  ⟨IsNormal.normalize_eq, fun h => h ▸ isNormal_normalize kind⟩

end Normal

section Null

/-- A union takes null if one of its members does. -/
theorem isNullable_union_iff :
    (Kind.union members).isNullable = true ↔ ∃ kind ∈ members, kind.isNullable = true := by
  rw [isNullable]
  induction members with
  | nil => simp [anyNullable]
  | cons kind kinds ih => simp [anyNullable, ih]

/-- Equal lists of literals both have null or both have not. -/
theorem null_mem_iff_of_equalItems {literals others : List Json}
    (h : Json.equalItems literals others = true) : Json.null ∈ literals ↔ Json.null ∈ others := by
  induction literals generalizing others with
  | nil =>
    cases others with
    | nil => rfl
    | cons => cases h
  | cons literal literals ih =>
    cases others with
    | nil => cases h
    | cons other others =>
      obtain ⟨hhead, htail⟩ := Bool.and_eq_true_iff.mp h
      have hnull : Json.null = literal ↔ Json.null = other := by
        cases literal <;> cases other <;> simp_all [Json.equal]
      rw [List.mem_cons, List.mem_cons, hnull, ih htail]

/-- Of two equal kinds both take null or neither does. -/
theorem isNullable_iff_of_equal (h : kind.equal other = true) :
    kind.isNullable = true ↔ other.isNullable = true := by
  refine induction_of_equal ?scalar ?enumeration ?reference ?collection ?union ?nullable h
  case scalar => exact fun _ => .rfl
  case enumeration =>
    intro literals others hequal
    simpa [isNullable] using null_mem_iff_of_equalItems hequal
  case reference => exact fun _ => .rfl
  case collection => exact fun _ _ _ => .rfl
  case nullable => exact fun _ _ _ => .rfl
  case union =>
    intro members others _ ih
    rw [isNullable_union_iff, isNullable_union_iff]
    exact exists_mem_iff_of_forall₂ ih

/-- What a kind contributes to a union takes null if the kind does. -/
theorem exists_isNullable_alternatives_iff :
    (∃ other ∈ alternatives kind, other.isNullable = true) ↔ kind.isNullable = true := by
  cases kind with
  | union members => exact isNullable_union_iff.symm
  | _ => simp [alternatives]

/-- A kind and its normal form take null alike. -/
theorem isNullable_normalize (kind : Kind) : kind.normalize.isNullable = kind.isNullable := by
  rw [Bool.eq_iff_iff]
  induction kind using Kind.induction with
  | scalar type => rfl
  | enumeration literals => rfl
  | reference name => rfl
  | collection item ih => rfl
  | nullable inner ih =>
    rw [normalize, isNullable_union_iff, exists_mem_distinct_iff fun _ _ => isNullable_iff_of_equal]
    exact iff_of_true ⟨.null, by simp, rfl⟩ rfl
  | union members ih =>
    rw [normalize, isNullable_union_iff, isNullable_union_iff]
    refine exists_mem_normal_union_iff (fun _ _ => isNullable_iff_of_equal) fun member hmember => ?_
    rw [exists_isNullable_alternatives_iff, ih member hmember]

end Null

section Direct

/-- A union mentions directly what its members do, unless it takes null. -/
theorem mentionsDirectly_union_iff :
    MentionsDirectly type (.union members) ↔
      (Kind.union members).isNullable = false ∧ ∃ kind ∈ members, MentionsDirectly type kind := by
  constructor
  · intro h
    cases h with
    | union hnull hkind hdirect => exact ⟨hnull, _, hkind, hdirect⟩
  · rintro ⟨hnull, kind, hkind, hdirect⟩
    exact .union hnull hkind hdirect

/-- Nothing is mentioned directly inside a collection. -/
theorem not_mentionsDirectly_collection {item : Kind} :
    ¬ MentionsDirectly type (.collection item) := by
  rintro ⟨⟩

/-- Nothing is mentioned directly inside a nullable. -/
theorem not_mentionsDirectly_nullable {inner : Kind} :
    ¬ MentionsDirectly type (.nullable inner) := by
  rintro ⟨⟩

/-- Of two equal kinds both mention a type directly or neither does. -/
theorem mentionsDirectly_iff_of_equal (h : kind.equal other = true) :
    MentionsDirectly type kind ↔ MentionsDirectly type other := by
  refine induction_of_equal ?scalar ?enumeration ?reference ?collection ?union ?nullable h
  case scalar => exact fun _ => .rfl
  case enumeration => exact fun _ _ _ => iff_of_false (by rintro ⟨⟩) (by rintro ⟨⟩)
  case reference => exact fun _ => .rfl
  case collection =>
    exact fun _ _ _ =>
      iff_of_false not_mentionsDirectly_collection not_mentionsDirectly_collection
  case nullable =>
    exact fun _ _ _ => iff_of_false not_mentionsDirectly_nullable not_mentionsDirectly_nullable
  case union =>
    intro members others hequal ih
    have hunions : (Kind.union members).equal (.union others) = true := hequal
    have hnull := Bool.eq_iff_iff.mpr (isNullable_iff_of_equal hunions)
    rw [mentionsDirectly_union_iff, mentionsDirectly_union_iff, hnull,
      exists_mem_iff_of_forall₂ ih]

/-- What a kind that does not take null contributes to a union mentions directly what the kind
does. -/
theorem exists_mentionsDirectly_alternatives_iff (h : kind.isNullable = false) :
    (∃ other ∈ alternatives kind, MentionsDirectly type other) ↔ MentionsDirectly type kind := by
  cases kind with
  | union members => rw [alternatives, mentionsDirectly_union_iff, and_iff_right h]
  | _ => simp [alternatives]

/-- A kind and its normal form mention the same types directly. -/
theorem mentionsDirectly_normalize_iff :
    kind.normalize.MentionsDirectly type ↔ kind.MentionsDirectly type := by
  induction kind using Kind.induction with
  | scalar scalar => rfl
  | enumeration literals => rfl
  | reference name => rfl
  | collection item ih =>
    exact iff_of_false not_mentionsDirectly_collection not_mentionsDirectly_collection
  | nullable inner ih =>
    refine iff_of_false ?_ not_mentionsDirectly_nullable
    have hnull := isNullable_normalize (.nullable inner)
    rw [normalize] at hnull ⊢
    rw [mentionsDirectly_union_iff, hnull]
    rintro ⟨⟨⟩, -⟩
  | union members ih =>
    have hnull := isNullable_normalize (.union members)
    rw [normalize] at hnull ⊢
    rw [mentionsDirectly_union_iff, mentionsDirectly_union_iff, hnull]
    refine and_congr_right fun hnone => ?_
    refine exists_mem_normal_union_iff (fun _ _ => mentionsDirectly_iff_of_equal) ?_
    intro member hmember
    -- A member that takes null would make the union take it.
    have hfree : member.isNullable = false := by
      rw [← Bool.not_eq_true]
      intro htakes
      rw [isNullable_union_iff.mpr ⟨member, hmember, htakes⟩] at hnone
      cases hnone
    rw [exists_mentionsDirectly_alternatives_iff ((isNullable_normalize member).trans hfree),
      ih member hmember]

end Direct

section Order

/-- The names of the references in a kind in the order of writing. -/
def written (kind : Kind) : List String :=
  (kind.edges false).map Prod.fst

/-- Indirections do not change where the references of a kind lead. -/
theorem map_fst_edges (indirect : Bool) (kind : Kind) :
    (kind.edges indirect).map Prod.fst = kind.written := by
  unfold written
  induction kind using Kind.induction generalizing indirect with
  | scalar scalar => rfl
  | enumeration literals => rfl
  | reference name => rfl
  | collection item ih => rfl
  | nullable inner ih => rfl
  | union members ih =>
    simp only [edges, edgesOfMembers_eq_flatMap, List.map_flatMap]
    refine List.flatMap_congr fun kind hkind => ?_
    rw [ih kind hkind, ← ih kind hkind (false || anyNullable members)]

/-- A collection is written with the references of its items. -/
theorem written_collection (item : Kind) : (collection item).written = item.written :=
  map_fst_edges true item

/-- A nullable is written with the references of the kind inside. -/
theorem written_nullable (inner : Kind) : (nullable inner).written = inner.written :=
  map_fst_edges true inner

/-- A union is written with the references of its members in order. -/
theorem written_union (members : List Kind) :
    (union members).written = members.flatMap written := by
  rw [written, edges, edgesOfMembers_eq_flatMap, List.map_flatMap]
  exact List.flatMap_congr fun kind _ => map_fst_edges _ kind

/-- In equal kinds the same references are written. -/
theorem written_eq_of_equal (h : kind.equal other = true) : kind.written = other.written := by
  refine induction_of_equal ?scalar ?enumeration ?reference ?collection ?union ?nullable h
  case scalar => exact fun _ => rfl
  case enumeration => exact fun _ _ _ => rfl
  case reference => exact fun _ => rfl
  case collection =>
    intro item other ih
    rw [written_collection, written_collection, ih]
  case nullable =>
    intro inner other ih
    rw [written_nullable, written_nullable, ih]
  case union =>
    intro members others hequal ih
    clear hequal
    rw [written_union, written_union]
    induction ih with
    | nil => rfl
    | cons hhead _ ihtail => rw [List.flatMap_cons, List.flatMap_cons, hhead, ihtail]

/-- Two lists of names may stand for each other inside any list of which only the first occurrence
of each name counts. -/
def SameFirsts (names others : List String) : Prop :=
  ∀ before after, (before ++ names ++ after).eraseDups = (before ++ others ++ after).eraseDups

/-- Names with the same firsts may be put in a row. -/
theorem SameFirsts.append {names others more further : List String} (h : SameFirsts names others)
    (hmore : SameFirsts more further) : SameFirsts (names ++ more) (others ++ further) := by
  intro before after
  calc (before ++ (names ++ more) ++ after).eraseDups
      = (before ++ names ++ (more ++ after)).eraseDups := by simp only [List.append_assoc]
    _ = (before ++ others ++ (more ++ after)).eraseDups := h before (more ++ after)
    _ = (before ++ others ++ more ++ after).eraseDups := by simp only [List.append_assoc]
    _ = (before ++ others ++ further ++ after).eraseDups := hmore (before ++ others) after
    _ = (before ++ (others ++ further) ++ after).eraseDups := by simp only [List.append_assoc]

/-- Names have the same firsts as themselves. -/
theorem SameFirsts.refl (names : List String) : SameFirsts names names :=
  fun _ _ => rfl

/-- Names with the firsts of the same names have the same firsts. -/
theorem SameFirsts.trans {names others more : List String} (h : SameFirsts names others)
    (hmore : SameFirsts others more) : SameFirsts names more :=
  fun before after => (h before after).trans (hmore before after)

/-- Names that were written before do not count. -/
theorem sameFirsts_append_of_subset {names repeated : List String} (h : repeated ⊆ names) :
    SameFirsts (names ++ repeated) names := by
  intro before after
  have hbefore : ∀ name, name ∈ before ++ (names ++ repeated) ↔ name ∈ before ++ names := by
    intro name
    simp only [List.mem_append]
    have := @h name
    tauto
  have hrepeated : repeated.removeAll (before ++ names) = [] := by
    simpa [List.removeAll, List.filter_eq_nil_iff] using fun name hname _ => h hname
  have hnames : (before ++ (names ++ repeated)).eraseDups = (before ++ names).eraseDups := by
    rw [← List.append_assoc, List.eraseDups_append, hrepeated]
    simp
  have hafter : after.removeAll (before ++ (names ++ repeated)) =
      after.removeAll (before ++ names) := by
    simp only [List.removeAll, List.elem_eq_mem, hbefore]
  calc (before ++ (names ++ repeated) ++ after).eraseDups
      = (before ++ (names ++ repeated)).eraseDups ++
          (after.removeAll (before ++ (names ++ repeated))).eraseDups := List.eraseDups_append
    _ = (before ++ names).eraseDups ++ (after.removeAll (before ++ names)).eraseDups := by
        rw [hnames, hafter]
    _ = (before ++ names ++ after).eraseDups := List.eraseDups_append.symm

/-- Lists of names whose parts may stand for each other may stand for each other. -/
theorem sameFirsts_flatMap {names others : Kind → List String}
    (h : ∀ kind ∈ kinds, SameFirsts (names kind) (others kind)) :
    SameFirsts (kinds.flatMap names) (kinds.flatMap others) := by
  induction kinds with
  | nil => exact .refl []
  | cons kind kinds ih =>
    obtain ⟨hkind, hkinds⟩ := List.forall_mem_cons.mp h
    exact hkind.append (ih hkinds)

/-- A kind that is dropped writes nothing that was not written before. -/
theorem sameFirsts_keepNew (kept : List Kind) (kind : Kind) :
    SameFirsts ((kept ++ [kind]).flatMap written) ((keepNew kept kind).flatMap written) := by
  unfold keepNew
  split
  · next hany =>
    obtain ⟨earlier, hearlier, hequal⟩ := List.any_eq_true.mp hany
    rw [List.flatMap_append, List.flatMap_singleton]
    refine sameFirsts_append_of_subset fun name hname => ?_
    rw [← written_eq_of_equal hequal] at hname
    exact List.mem_flatMap.mpr ⟨earlier, hearlier, hname⟩
  · exact .refl _

/-- Dropping repeated kinds changes nothing in the first occurrences of names. -/
theorem sameFirsts_distinct (kinds : List Kind) :
    SameFirsts (kinds.flatMap written) ((distinct kinds).flatMap written) := by
  -- The invariant is about the kinds kept so far followed by those still to come.
  have hstep : ∀ kept : List Kind, SameFirsts ((kept ++ kinds).flatMap written)
      ((kinds.foldl keepNew kept).flatMap written) := by
    induction kinds with
    | nil =>
      intro kept
      rw [List.append_nil]
      exact .refl _
    | cons first rest ih =>
      intro kept
      have hfirst : SameFirsts ((kept ++ [first] ++ rest).flatMap written)
          ((keepNew kept first ++ rest).flatMap written) := by
        simpa only [List.flatMap_append] using
          (sameFirsts_keepNew kept first).append (.refl (rest.flatMap written))
      rw [List.append_cons]
      exact hfirst.trans (ih _)
  exact hstep []

/-- What a kind contributes to a union writes what the kind does. -/
theorem flatMap_written_alternatives (kind : Kind) :
    (alternatives kind).flatMap written = kind.written := by
  cases kind with
  | union members => exact (written_union members).symm
  | _ => exact List.flatMap_singleton _ _

/-- A kind and its normal form write the same names, as far as first occurrences go. -/
theorem sameFirsts_normalize (kind : Kind) : SameFirsts kind.written kind.normalize.written := by
  induction kind using Kind.induction with
  | scalar scalar => exact .refl _
  | enumeration literals => exact .refl _
  | reference name => exact .refl _
  | collection item ih =>
    rw [normalize, written_collection, written_collection]
    exact ih
  | nullable inner ih =>
    have hnormal := sameFirsts_distinct (alternatives inner.normalize ++ [.null])
    rw [List.flatMap_append, flatMap_written_alternatives, List.flatMap_singleton] at hnormal
    rw [normalize, written_nullable, written_union]
    exact ih.trans (by simpa [written, edges, Kind.null] using hnormal)
  | union members ih =>
    have hnormal := sameFirsts_distinct (normalizeMembers members)
    rw [normalizeMembers_eq_flatMap, List.flatMap_assoc] at hnormal
    simp only [flatMap_written_alternatives] at hnormal
    rw [normalize, written_union, written_union, normalizeMembers_eq_flatMap]
    exact (sameFirsts_flatMap ih).trans hnormal

/-- A kind and its normal form refer to the same types in the same order. -/
theorem referenced_normalize (kind : Kind) : kind.normalize.referenced = kind.referenced := by
  have hsame := sameFirsts_normalize kind [] []
  simpa [written, referenced] using hsame.symm

end Order

/-- The normal form of a kind is normal and its own normal form, takes null if the kind does, and
refers to the same types in the same order, and to the same types directly. -/
theorem isNormal_normalize_and_alike (kind : Kind) :
    kind.normalize.IsNormal ∧ kind.normalize.normalize = kind.normalize ∧
      kind.normalize.isNullable = kind.isNullable ∧
      kind.normalize.referenced = kind.referenced ∧
      ∀ type, kind.normalize.MentionsDirectly type ↔ kind.MentionsDirectly type :=
  have hnormal := isNormal_normalize kind
  ⟨hnormal, isNormal_iff.mp hnormal, isNullable_normalize kind, referenced_normalize kind,
    fun _ => mentionsDirectly_normalize_iff⟩

end LinkedSchema.Kind
