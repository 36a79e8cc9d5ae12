import LinkedSchema.Proofs.Context.Origin

/-!
# What accounts for a context

Every meaning in a context is accounted for. It is introduced for the root by the vocabulary and the
class of the root, or it is given by a claim of the type in whose scope it stands: the identifier of
a field, or the class identifier of a type that is linked to. The scopes in a context are those of
the types to which links lead from the root.
-/

namespace LinkedSchema

/-- The terms that a vocabulary and the class of a root introduce in the scope of the root. -/
inductive Vocabulary.Introduces (vocabulary : Vocabulary) (registry : Registry) (root : String) :
    String → String → Prop
  | keyword : Introduces vocabulary registry root "@vocab" vocabulary.iri
  | shortName : Introduces vocabulary registry root vocabulary.shortName vocabulary.iri
  | root {id : String} : registry.classId? root = some id →
    Introduces vocabulary registry root root id

/-- The terms that a vocabulary binds to its base IRI. -/
def Vocabulary.Binds (vocabulary : Vocabulary) (term : String) : Prop :=
  term = "@vocab" ∨ term = vocabulary.shortName

/-- A term stands for the identifier of its meaning. -/
theorem Scope.id?_eq_some_iff {scope : Scope} {term id : String} :
    scope.id? term = some id ↔ ∃ entry, scope.get? term = some entry ∧ entry.id = id := by
  rw [id?, Option.map_eq_some_iff]

namespace Context

variable {tree : SchemaTree} {registry : Registry} {vocabulary : Vocabulary} {context : Scope}
  {memo : ContextMemo}

/-- Before it is filled, the scope of the root holds what is introduced. -/
theorem get?_rootScope_iff {root : String} {start : Scope}
    (h : rootScope registry vocabulary root = .ok start) {term : String} {entry : Entry} :
    start.get? term = some entry ↔
      ∃ id, vocabulary.Introduces registry root term id ∧ .iri id = entry := by
  obtain ⟨first, hfirst, h⟩ := Outcome.bind_eq_ok_iff.mp h
  obtain ⟨second, hsecond, h⟩ := Outcome.bind_eq_ok_iff.mp h
  have hsecond : second.get? term = some entry ↔
      (vocabulary.shortName = term ∧ .iri vocabulary.iri = entry) ∨
        "@vocab" = term ∧ .iri vocabulary.iri = entry := by
    rw [Scope.get?_eq_some_iff_of_claim (scope_claim_of_claim hsecond),
      Scope.get?_eq_some_iff_of_claim (scope_claim_of_claim hfirst)]
    simp [Scope.get?]
  split at h
  · next hclass =>
    cases h
    rw [hsecond]
    constructor
    · rintro (⟨rfl, rfl⟩ | ⟨rfl, rfl⟩)
      · exact ⟨_, .shortName, rfl⟩
      · exact ⟨_, .keyword, rfl⟩
    · rintro ⟨id, hintroduces, rfl⟩
      cases hintroduces with
      | keyword => exact .inr ⟨rfl, rfl⟩
      | shortName => exact .inl ⟨rfl, rfl⟩
      | root hid =>
        rw [hclass] at hid
        cases hid
  · next id hclass =>
    rw [Scope.get?_eq_some_iff_of_claim (scope_claim_of_claim h), hsecond]
    constructor
    · rintro (⟨rfl, rfl⟩ | ⟨rfl, rfl⟩ | ⟨rfl, rfl⟩)
      · exact ⟨_, .root hclass, rfl⟩
      · exact ⟨_, .shortName, rfl⟩
      · exact ⟨_, .keyword, rfl⟩
    · rintro ⟨id, hintroduces, rfl⟩
      cases hintroduces with
      | keyword => exact .inr (.inr ⟨rfl, rfl⟩)
      | shortName => exact .inr (.inl ⟨rfl, rfl⟩)
      | root hid =>
        cases hclass.symm.trans hid
        exact .inl ⟨rfl, rfl⟩

/-- The terms that are introduced are distinct. -/
theorem nodup_terms_of_rootScope {root : String} {start : Scope}
    (h : rootScope registry vocabulary root = .ok start) : start.terms.Nodup := by
  obtain ⟨first, hfirst, h⟩ := Outcome.bind_eq_ok_iff.mp h
  obtain ⟨second, hsecond, h⟩ := Outcome.bind_eq_ok_iff.mp h
  have hnodup : second.terms.Nodup :=
    Scope.nodup_terms_of_claim
      (Scope.nodup_terms_of_claim Scope.nodup_terms_nil (scope_claim_of_claim hfirst))
      (scope_claim_of_claim hsecond)
  split at h
  · cases h
    exact hnodup
  · exact Scope.nodup_terms_of_claim hnodup (scope_claim_of_claim h)

/-- A term has an identifier in the scope of a type by itself: it is a field, or it is introduced for
the root. -/
def Fixes (tree : SchemaTree) (registry : Registry) (vocabulary : Vocabulary)
    (type term id : String) : Prop :=
  Identifies tree registry type term id ∨
    type = tree.root.name ∧ vocabulary.Introduces registry tree.root.name term id

/-- A finished context of which every meaning is accounted for: it was introduced for the root, or it
is given by a claim of the type in whose scope it stands. -/
structure Accounted (tree : SchemaTree) (registry : Registry) (vocabulary : Vocabulary)
    (context : Scope) (memo : ContextMemo) : Prop
    extends Complete tree registry context memo where
  introduced : ∀ term id, vocabulary.Introduces registry tree.root.name term id →
    context.get? term = some (.iri id)
  nodup : ∀ type scope, memo.scopes.get? type = some scope → scope.terms.Nodup
  origin : ∀ type scope, memo.scopes.get? type = some scope →
    ∃ definition, tree.get? type = some definition ∧
      ∀ term entry, scope.get? term = some entry →
        (type = tree.root.name ∧
          ∃ id, vocabulary.Introduces registry type term id ∧ .iri id = entry) ∨
        ∃ claim ∈ definition.claims registry, claim.Gives registry term entry

/-- Every meaning in a context that was built is accounted for. -/
theorem exists_accounted_of_build (hroot : tree.get? tree.root.name = some tree.root)
    (h : build tree registry vocabulary = .ok context) :
    ∃ memo, Accounted tree registry vocabulary context memo := by
  obtain ⟨start, memo, hstart, hfill⟩ := exists_fill_of_build h
  have hfilled := filled_of_fill hfill (sound_empty _)
  obtain ⟨htraced, htraces⟩ :=
    traces_of_fill hfill traced_empty (nodup_terms_of_rootScope hstart)
  have hkept : ∀ type scope, (memo.keep tree.root.name context).scopes.get? type = some scope →
      type = tree.root.name ∧ scope = context ∨ memo.scopes.get? type = some scope := by
    intro type scope hkept
    rw [ContextMemo.get?_scopes_keep] at hkept
    split at hkept
    · next heq => exact .inl ⟨heq.symm, (Option.some.inj hkept).symm⟩
    · exact .inr hkept
  refine ⟨_, complete_of_fill hroot hstart hfill, ?_, ?_, ?_⟩
  · intro term id hintroduces
    exact hfilled.keeps term _ ((get?_rootScope_iff hstart).mpr ⟨id, hintroduces, rfl⟩)
  · intro type scope hscope
    rcases hkept type scope hscope with ⟨-, rfl⟩ | hscope
    · exact htraces.nodup
    · obtain ⟨definition, -, hown⟩ := htraced type scope hscope
      exact hown.nodup
  · intro type scope hscope
    rcases hkept type scope hscope with ⟨rfl, rfl⟩ | hscope
    · refine ⟨tree.root, hroot, ?_⟩
      intro term entry hterm
      rcases htraces.origin term entry hterm with hintroduced | hgiven
      · exact .inl ⟨rfl, (get?_rootScope_iff hstart).mp hintroduced⟩
      · exact .inr hgiven
    · obtain ⟨definition, hdefinition, hown⟩ := htraced type scope hscope
      refine ⟨definition, hdefinition, ?_⟩
      intro term entry hterm
      rcases hown.origin term entry hterm with hnone | hgiven
      · cases hnone
      · exact .inr hgiven

namespace Accounted

variable {type : String} {scope : Scope}

/-- A scope that stands for a type is the one that is kept for it. -/
theorem get?_of_standsFor (h : Accounted tree registry vocabulary context memo)
    (hstands : context.StandsFor tree.root.name type scope) :
    memo.scopes.get? type = some scope := by
  rcases hstands with ⟨rfl, rfl⟩ | hoccurs
  · exact h.root
  · exact h.get?_of_occurs h.root hoccurs

/-- Terms with a fixed identifier are plain. -/
theorem get?_of_fixes (h : Accounted tree registry vocabulary context memo)
    (hkept : memo.scopes.get? type = some scope) {term id : String}
    (hfixes : Fixes tree registry vocabulary type term id) :
    scope.get? term = some (.iri id) := by
  rcases hfixes with hfield | ⟨rfl, hintroduces⟩
  · exact h.get?_of_identifies hkept hfield
  · obtain rfl : context = scope := Option.some.inj (h.root.symm.trans hkept)
    exact h.introduced term id hintroduces

/-- The identifiers in a kept scope are those that are fixed and those of the types it links to. -/
theorem id?_iff (h : Accounted tree registry vocabulary context memo)
    (hkept : memo.scopes.get? type = some scope) {term id : String} :
    scope.id? term = some id ↔ Fixes tree registry vocabulary type term id ∨
      Links tree registry type term ∧ registry.classId? term = some id := by
  rw [Scope.id?_eq_some_iff]
  constructor
  · rintro ⟨entry, hterm, rfl⟩
    obtain ⟨definition, hdefinition, horigin⟩ := h.origin type scope hkept
    rcases horigin term entry hterm with
      ⟨rfl, id, hintroduces, rfl⟩ | ⟨claim, hclaim, hgives⟩
    · exact .inl (.inr ⟨rfl, hintroduces⟩)
    · cases hgives with
      | field => exact .inl (.inl ⟨definition, hdefinition, hclaim⟩)
      | plain hid => exact .inr ⟨⟨definition, hdefinition, hclaim, _, hid⟩, hid⟩
      | nested hid _ => exact .inr ⟨⟨definition, hdefinition, hclaim, _, hid⟩, hid⟩
  · rintro (hfixes | ⟨⟨definition, hdefinition, hclaim, -⟩, hid⟩)
    · exact ⟨_, h.get?_of_fixes hkept hfixes, rfl⟩
    · have hhonours := (h.sound type scope hkept).honours definition hdefinition
      rcases hhonours _ hclaim id hid with ⟨inner, -, hterm⟩ | ⟨-, hterm⟩
      · exact ⟨_, hterm, id_typeEntry id inner⟩
      · exact ⟨_, hterm, rfl⟩

/-- The scope of another type than the root has a term exactly if the type has terms of its own. -/
theorem ne_nil_iff (h : Accounted tree registry vocabulary context memo)
    (hkept : memo.scopes.get? type = some scope) (hroot : type ≠ tree.root.name) :
    scope ≠ [] ↔ HasTerms tree registry type := by
  constructor
  · intro hne
    obtain ⟨term, entry, hentry⟩ := Scope.exists_get?_of_ne_nil hne
    have hterm := Scope.id?_eq_some_iff.mpr ⟨entry, hentry, rfl⟩
    rcases (h.id?_iff hkept).mp hterm with (hfield | ⟨heq, -⟩) | ⟨hlink, -⟩
    · exact ⟨term, .inl ⟨_, hfield⟩⟩
    · exact absurd heq hroot
    · exact ⟨term, .inr hlink⟩
  · rintro ⟨term, hterm⟩ rfl
    have hsome : ∃ id, Fixes tree registry vocabulary type term id ∨
        Links tree registry type term ∧ registry.classId? term = some id := by
      rcases hterm with ⟨id, hfield⟩ | hlink
      · exact ⟨id, .inl (.inl hfield)⟩
      · obtain ⟨id, hid⟩ := hlink.exists_classId
        exact ⟨id, .inr ⟨hlink, hid⟩⟩
    obtain ⟨id, hid⟩ := hsome
    have hterm := (h.id?_iff hkept).mpr hid
    cases hterm

/-- A term with a scope is a type with a class identifier to which the type refers in whose scope it
stands. Its scope is kept and has terms. -/
theorem links_of_scoped (h : Accounted tree registry vocabulary context memo)
    (hkept : memo.scopes.get? type = some scope) {term id : String} {inner : Scope}
    (hterm : scope.get? term = some (.scoped id inner)) :
    Links tree registry type term ∧ registry.classId? term = some id ∧ inner ≠ [] ∧
      memo.scopes.get? term = some inner := by
  obtain ⟨definition, hdefinition, horigin⟩ := h.origin type scope hkept
  have hinner := ((h.sound type scope hkept).nests term id inner hterm).1
  rcases horigin term _ hterm with ⟨-, _, -, ⟨⟩⟩ | ⟨claim, hclaim, hgives⟩
  cases hgives with
  | nested hid hne => exact ⟨⟨definition, hdefinition, hclaim, id, hid⟩, hid, hne, hinner⟩

/-- The root has no scope inside a kept scope. -/
theorem ne_root_of_occurs (h : Accounted tree registry vocabulary context memo)
    (hkept : memo.scopes.get? type = some scope) {other : String} {inner : Scope}
    (hoccurs : inner.Occurs other scope) : other ≠ tree.root.name := by
  rintro rfl
  -- The scope of the root would be inside one that is inside the scope of the root.
  have hinner := h.get?_of_occurs hkept hoccurs
  obtain rfl : context = inner := Option.some.inj (h.root.symm.trans hinner)
  have hsmaller := hoccurs.sizeOf_lt
  by_cases htype : type = tree.root.name
  · subst htype
    obtain rfl : context = scope := Option.some.inj (h.root.symm.trans hkept)
    omega
  · have hlarger := (h.occurs type scope hkept htype hoccurs.ne_nil).sizeOf_lt
    omega

/-- A scope that occurs in a kept scope has terms, and links that keep away from the root lead to its
type. -/
theorem linked_of_occurs (h : Accounted tree registry vocabulary context memo)
    (hkept : memo.scopes.get? type = some scope) {other : String} {inner : Scope}
    (hoccurs : inner.Occurs other scope) :
    inner ≠ [] ∧ Relation.TransGen (LinksInside tree registry) type other := by
  induction hoccurs generalizing type with
  | here hterm =>
    obtain ⟨hlink, -, hne, -⟩ := h.links_of_scoped hkept hterm
    exact ⟨hne, .single ⟨hlink, h.ne_root_of_occurs hkept (.here hterm)⟩⟩
  | inside hterm _ ih =>
    obtain ⟨hlink, -, -, hmiddle⟩ := h.links_of_scoped hkept hterm
    obtain ⟨hne, hleads⟩ := ih hmiddle
    exact ⟨hne, .head ⟨hlink, h.ne_root_of_occurs hkept (.here hterm)⟩ hleads⟩

/-- Wherever links lead from a type whose scope is kept, the scopes are kept. -/
theorem exists_kept_of_linked (h : Accounted tree registry vocabulary context memo)
    (hkept : memo.scopes.get? type = some scope) {other : String}
    (hleads : Relation.ReflTransGen (Links tree registry) type other) :
    ∃ inner, memo.scopes.get? other = some inner := by
  induction hleads with
  | refl => exact ⟨scope, hkept⟩
  | @tail middle target _ hlink ih =>
    obtain ⟨inner, hinner⟩ := ih
    by_cases hne : target = middle
    · exact ⟨inner, hne ▸ hinner⟩
    · obtain ⟨-, found, hfound, -⟩ := h.get?_of_links hinner hlink hne
      exact ⟨found, hfound⟩

/-- The types with a scope in a context are those to which links lead from the root and that have
terms of their own. -/
theorem exists_occurs_iff (h : Accounted tree registry vocabulary context memo) :
    (∃ inner : Scope, inner.Occurs type context) ↔
      Relation.TransGen (LinksInside tree registry) tree.root.name type ∧
        HasTerms tree registry type := by
  constructor
  · rintro ⟨inner, hoccurs⟩
    obtain ⟨hne, hleads⟩ := h.linked_of_occurs h.root hoccurs
    have hkept := h.get?_of_occurs h.root hoccurs
    exact ⟨hleads, (h.ne_nil_iff hkept (h.ne_root_of_occurs h.root hoccurs)).mp hne⟩
  · rintro ⟨hleads, hterms⟩
    obtain ⟨hroot, hlinked⟩ := leadsInside_iff.mp hleads
    obtain ⟨inner, hinner⟩ := h.exists_kept_of_linked h.root hlinked
    exact ⟨inner, h.occurs type inner hinner hroot ((h.ne_nil_iff hinner hroot).mpr hterms)⟩

end Accounted

end Context

end LinkedSchema
