import LinkedSchema.Proofs.Context.Accounted
import LinkedSchema.Proofs.Context.Run

/-!
# Why a context is refused

A context is refused where a type that is linked to has no definition, or where a term of some type
has two meanings. The meanings of a term are fixed but for one case: a type that is linked to is a
plain term or one with a scope, depending on which types are active. So two meanings have different
identifiers, or one of them is that of a field or of the vocabulary, which is plain, and the other
is that of a type with terms of its own.
-/

namespace LinkedSchema

namespace Context

variable {tree : SchemaTree} {registry : Registry} {vocabulary : Vocabulary} {active : List String}
  {owner : String} {memo : ContextMemo} {scope : Scope} {claims : List Claim}

/-- The reasons for which no context can be built, or not with the fields in some order. -/
inductive Refuses (tree : SchemaTree) (registry : Registry) (vocabulary : Vocabulary) :
    ContextError → Prop
  | missing {type target : String} :
    Linked tree registry type → Links tree registry type target →
    tree.get? target = none →
    Refuses tree registry vocabulary (.missingDefinition target)
  | fixed {type term id other : String} :
    Linked tree registry type → Fixes tree registry vocabulary type term id →
    Fixes tree registry vocabulary type term other → id ≠ other →
    Refuses tree registry vocabulary (.termCollision type term)
  | linked {type term id other : String} :
    Linked tree registry type →
    Fixes tree registry vocabulary type term id → Links tree registry type term →
    registry.classId? term = some other →
    (id = other → HasTerms tree registry term ∧ term ≠ type ∧ term ≠ tree.root.name) →
    Refuses tree registry vocabulary (.termCollision type term)

/-- A kept scope with terms is that of a type with terms of its own. -/
theorem Traced.hasTerms (h : Traced tree registry memo) {type : String} {inner : Scope}
    (hkept : memo.scopes.get? type = some inner) (hne : inner ≠ []) :
    HasTerms tree registry type := by
  obtain ⟨definition, hdefinition, htraces⟩ := h type inner hkept
  obtain ⟨term, entry, hterm⟩ := Scope.exists_get?_of_ne_nil hne
  refine ⟨term, ?_⟩
  rcases htraces.origin term entry hterm with ⟨⟨⟩⟩ | ⟨claim, hclaim, hgives⟩
  cases hgives with
  | field => exact .inl ⟨_, definition, hdefinition, hclaim⟩
  | plain hid => exact .inr ⟨definition, hdefinition, hclaim, _, hid⟩
  | nested hid _ => exact .inr ⟨definition, hdefinition, hclaim, _, hid⟩

/-- The situation in which the scope of a type is being filled with the claims that are left. Each
of the meanings that are already there is introduced or given by a claim of the type. -/
structure Filling (tree : SchemaTree) (registry : Registry) (vocabulary : Vocabulary)
    (active : List String) (owner : String) (claims : List Claim) (scope : Scope)
    (memo : ContextMemo) : Prop where
  root_active : tree.root.name ∈ active
  owner_active : owner ∈ active
  linked : Linked tree registry owner
  sound : Sound tree registry active memo
  traced : Traced tree registry memo
  claimed : ∃ definition, tree.get? owner = some definition ∧
    claims ⊆ definition.claims registry ∧
    ∀ term entry, scope.get? term = some entry →
      (owner = tree.root.name ∧
        ∃ id, vocabulary.Introduces registry tree.root.name term id ∧ .iri id = entry) ∨
      ∃ claim ∈ definition.claims registry, Assigns registry active memo claim term entry

namespace Filling

variable {claim : Claim} {term : String} {entry : Entry} {type id : String} {inner : Scope}

/-- The scopes that are kept meanwhile change nothing in the situation. -/
theorem grow (h : Filling tree registry vocabulary active owner claims scope memo)
    {more : ContextMemo} (hgrows : memo.Grows more) (hsound : Sound tree registry active more)
    (htraced : Traced tree registry more) :
    Filling tree registry vocabulary active owner claims scope more := by
  obtain ⟨definition, hdefinition, hclaims, horigin⟩ := h.claimed
  refine ⟨h.root_active, h.owner_active, h.linked, hsound, htraced, definition, hdefinition,
    hclaims, ?_⟩
  intro term entry hterm
  rcases horigin term entry hterm with hintroduced | ⟨claim, hclaim, hassigns⟩
  · exact .inl hintroduced
  · exact .inr ⟨claim, hclaim, hassigns.mono hgrows⟩

/-- A claim may be left out. -/
theorem skip (h : Filling tree registry vocabulary active owner (claim :: claims) scope memo) :
    Filling tree registry vocabulary active owner claims scope memo := by
  obtain ⟨definition, hdefinition, hclaims, horigin⟩ := h.claimed
  exact ⟨h.root_active, h.owner_active, h.linked, h.sound, h.traced, definition, hdefinition,
    List.Subset.trans (List.subset_cons_self _ _) hclaims, horigin⟩

/-- A claim that is accepted leads on. -/
theorem take (h : Filling tree registry vocabulary active owner (claim :: claims) scope memo)
    (hassigns : Assigns registry active memo claim term entry) {middle : Scope}
    (hclaim : scope.claim term entry = .ok middle) :
    Filling tree registry vocabulary active owner claims middle memo := by
  obtain ⟨definition, hdefinition, hclaims, horigin⟩ := h.claimed
  refine ⟨h.root_active, h.owner_active, h.linked, h.sound, h.traced, definition, hdefinition,
    List.Subset.trans (List.subset_cons_self _ _) hclaims, ?_⟩
  intro other found hother
  rcases (Scope.get?_eq_some_iff_of_claim hclaim).mp hother with ⟨rfl, rfl⟩ | hother
  · exact .inr ⟨claim, hclaims List.mem_cons_self, hassigns⟩
  · exact horigin other found hother

/-- Filling goes on to the scope of a type that is linked to. -/
theorem descend
    (h : Filling tree registry vocabulary active owner (.type type :: claims) scope memo)
    (hid : registry.classId? type = some id) {definition : TypeDefinition}
    (hdefinition : tree.get? type = some definition) :
    Filling tree registry vocabulary (type :: active) type (definition.claims registry) []
      memo := by
  obtain ⟨found, hfound, hclaims, -⟩ := h.claimed
  have hlink : Links tree registry owner type :=
    ⟨found, hfound, hclaims List.mem_cons_self, id, hid⟩
  refine ⟨List.mem_cons_of_mem _ h.root_active, List.mem_cons_self, h.linked.tail hlink,
    h.sound.cons type, h.traced, definition, hdefinition, List.Subset.refl _, ?_⟩
  rintro term entry ⟨⟩

/-- When the scope of a type that is linked to is built and kept, filling goes on where it was. -/
theorem ascend (h : Filling tree registry vocabulary active owner (.type type :: claims) scope memo)
    (hwanting : Wanting registry active memo type) {definition : TypeDefinition}
    (hdefinition : tree.get? type = some definition) {within : ContextMemo}
    (hfill : fill tree registry (type :: active) definition.name (definition.claims registry) []
      memo = .ok (inner, within)) :
    Filling tree registry vocabulary active owner (.type type :: claims) scope
      (within.keep type inner) := by
  have hfilled := filled_of_fill hfill (h.sound.cons type)
  have hkeep : Extends active scope memo scope (within.keep type inner) :=
    .of_keep hwanting hfilled.toExtends
  obtain ⟨hwithin, hinner⟩ := traces_of_fill hfill h.traced Scope.nodup_terms_nil
  exact h.grow hkeep.grows
    (hfilled.sound_keep h.sound hdefinition hwanting.missing Scope.isFlat_nil)
    (hwithin.keep hdefinition hinner)

/-- A claim of a type fixes the identifier of a field, or it links to a type. -/
theorem fixes_or_links {definition : TypeDefinition}
    (hdefinition : tree.get? owner = some definition)
    (hclaim : claim ∈ definition.claims registry)
    (hassigns : Assigns registry active memo claim term entry) :
    (∃ id, Fixes tree registry vocabulary owner term id ∧ .iri id = entry) ∨
      Links tree registry owner term ∧ Assigns registry active memo (.type term) term entry := by
  cases hassigns with
  | field => exact .inl ⟨_, .inl ⟨definition, hdefinition, hclaim⟩, rfl⟩
  | active hid hactive =>
    exact .inr ⟨⟨definition, hdefinition, hclaim, _, hid⟩, .active hid hactive⟩
  | kept hid hidle hkept =>
    exact .inr ⟨⟨definition, hdefinition, hclaim, _, hid⟩, .kept hid hidle hkept⟩

/-- A fixed identifier and another meaning of a type that is linked to are a reason for refusal. -/
theorem refuses_linked (h : Filling tree registry vocabulary active owner claims scope memo)
    (hfixes : Fixes tree registry vocabulary owner term id)
    (hlinks : Links tree registry owner term)
    (hassigns : Assigns registry active memo (.type term) term entry) (hne : .iri id ≠ entry) :
    Refuses tree registry vocabulary (.termCollision owner term) := by
  cases hassigns with
  | active hid _ => exact .linked h.linked hfixes hlinks hid fun heq => absurd (heq ▸ rfl) hne
  | @kept _ other inner hid hidle hkept =>
    refine .linked h.linked hfixes hlinks hid fun heq => ⟨?_, ?_, ?_⟩
    · refine h.traced.hasTerms hkept ?_
      rintro rfl
      exact hne (heq ▸ rfl)
    · rintro rfl
      exact hidle h.owner_active
    · rintro rfl
      exact hidle h.root_active

/-- A claim that is not accepted is a reason for refusal. -/
theorem refuses_collision
    (h : Filling tree registry vocabulary active owner (claim :: claims) scope memo)
    (hassigns : Assigns registry active memo claim term entry) {existing : Entry}
    (hexisting : scope.get? term = some existing) (hne : existing ≠ entry) :
    Refuses tree registry vocabulary (.termCollision owner term) := by
  obtain ⟨definition, hdefinition, hclaims, horigin⟩ := h.claimed
  have hold : (∃ id, Fixes tree registry vocabulary owner term id ∧ .iri id = existing) ∨
      Links tree registry owner term ∧ Assigns registry active memo (.type term) term existing := by
    rcases horigin term existing hexisting with
      ⟨hroot, id, hintroduces, heq⟩ | ⟨older, holder, hassigned⟩
    · exact .inl ⟨id, .inr ⟨hroot, hintroduces⟩, heq⟩
    · exact fixes_or_links hdefinition holder hassigned
  have hnew : (∃ id, Fixes tree registry vocabulary owner term id ∧ .iri id = entry) ∨
      Links tree registry owner term ∧ Assigns registry active memo (.type term) term entry :=
    fixes_or_links hdefinition (hclaims List.mem_cons_self) hassigns
  rcases hold with ⟨id, hfixes, rfl⟩ | ⟨hlinks, hold⟩
  · rcases hnew with ⟨other, hother, rfl⟩ | ⟨hlinks, hnew⟩
    · exact .fixed h.linked hfixes hother fun heq => hne (heq ▸ rfl)
    · exact h.refuses_linked hfixes hlinks hnew hne
  · rcases hnew with ⟨other, hother, rfl⟩ | ⟨-, hnew⟩
    · exact h.refuses_linked hother hlinks hold hne.symm
    · exact absurd (hold.unique hnew) hne

end Filling

/-- A claim that is refused meets another meaning of its term. -/
theorem exists_get?_of_claim_error {term : String} {entry : Entry}
    {interruption : Interruption ContextError ContextMemo}
    (h : claim memo owner scope term entry = .error interruption) :
    interruption.cause = .termCollision owner term ∧
      ∃ existing, scope.get? term = some existing ∧ existing ≠ entry := by
  unfold claim Scope.claim at h
  split at h
  · next existing hexisting =>
    split at h
    · cases h
    · next hne =>
      cases h
      exact ⟨rfl, existing, hexisting, hne⟩
  · cases h

/-- Filling a scope is refused for a reason. -/
theorem refuses_of_run {starts : List Start}
    {outcome : Except (Interruption ContextError ContextMemo) (Scope × ContextMemo)}
    {interruption : Interruption ContextError ContextMemo}
    (hnames : ∀ type definition, tree.get? type = some definition → definition.name = type)
    (h : Run tree registry active owner claims scope memo starts outcome)
    (hfail : outcome = .error interruption)
    (hfilling : Filling tree registry vocabulary active owner claims scope memo) :
    Refuses tree registry vocabulary interruption.cause := by
  induction h with
  | done => cases hfail
  | take hassigns hclaim _ ih =>
    exact ih hfail (hfilling.take hassigns (scope_claim_of_claim hclaim))
  | refuse hassigns hclaim =>
    cases hfail
    obtain ⟨hcause, existing, hexisting, hne⟩ := exists_get?_of_claim_error hclaim
    rw [hcause]
    exact hfilling.refuses_collision hassigns hexisting hne
  | @pass active owner type claims scope memo starts outcome _ _ ih =>
    have hnote : Extends active scope memo scope (memo.note tree type) := .of_note tree type
    exact ih hfail
      (hfilling.skip.grow hnote.grows (hfilling.sound.note type) (hfilling.traced.note type))
  | @undefined active owner type claims scope memo hwanting hundefined =>
    cases hfail
    obtain ⟨definition, hdefinition, hclaims, -⟩ := hfilling.claimed
    have hlinks : Links tree registry owner type :=
      ⟨definition, hdefinition, hclaims List.mem_cons_self, hwanting.identified⟩
    exact .missing hfilling.linked hlinks hundefined
  | abandon hwanting hdefinition _ ih =>
    obtain ⟨id, hid⟩ := hwanting.identified
    obtain rfl := hnames _ _ hdefinition
    exact ih hfail (hfilling.descend hid hdefinition)
  | build hwanting hdefinition hinner _ _ ih =>
    exact ih hfail (hfilling.ascend hwanting hdefinition hinner.eq_fill.symm)

/-- The scope of the root is refused at its start for a term that is introduced with two
identifiers. -/
theorem refuses_of_rootScope {interruption : Interruption ContextError ContextMemo}
    (h : rootScope registry vocabulary tree.root.name = .error interruption) :
    Refuses tree registry vocabulary interruption.cause := by
  have hrefuses : ∀ {scope : Scope} {term id : String},
      vocabulary.Introduces registry tree.root.name term id →
      (∀ term entry, scope.get? term = some entry →
        ∃ id, vocabulary.Introduces registry tree.root.name term id ∧ .iri id = entry) →
      claim {} tree.root.name scope term (.iri id) = .error interruption →
      Refuses tree registry vocabulary interruption.cause := by
    intro scope term id hintroduces horigin hclaim
    obtain ⟨hcause, existing, hexisting, hne⟩ := exists_get?_of_claim_error hclaim
    obtain ⟨other, hother, rfl⟩ := horigin term existing hexisting
    rw [hcause]
    exact .fixed .refl (.inr ⟨rfl, hother⟩) (.inr ⟨rfl, hintroduces⟩) fun heq => hne (heq ▸ rfl)
  rcases Outcome.bind_eq_error_iff.mp h with hclaim | ⟨first, hfirst, h⟩
  · exact hrefuses .keyword (by rintro term entry ⟨⟩) hclaim
  have hkeyword : ∀ term entry, first.get? term = some entry →
      ∃ id, vocabulary.Introduces registry tree.root.name term id ∧ .iri id = entry := by
    intro term entry hterm
    rcases (Scope.get?_eq_some_iff_of_claim (scope_claim_of_claim hfirst)).mp hterm with
      ⟨rfl, rfl⟩ | ⟨⟨⟩⟩
    exact ⟨_, .keyword, rfl⟩
  rcases Outcome.bind_eq_error_iff.mp h with hclaim | ⟨second, hsecond, h⟩
  · exact hrefuses .shortName hkeyword hclaim
  split at h
  · cases h
  · next id hid =>
    refine hrefuses (.root hid) ?_ h
    intro term entry hterm
    rcases (Scope.get?_eq_some_iff_of_claim (scope_claim_of_claim hsecond)).mp hterm with
      ⟨rfl, rfl⟩ | hterm
    · exact ⟨_, .shortName, rfl⟩
    · exact hkeyword term entry hterm

/-- A context is refused for a reason. -/
theorem refuses_of_build {error : ContextError}
    (hnames : ∀ type definition, tree.get? type = some definition → definition.name = type)
    (hroot : tree.get? tree.root.name = some tree.root)
    (h : build tree registry vocabulary = .error error) :
    Refuses tree registry vocabulary error := by
  unfold build at h
  split at h
  · next interruption hbuild =>
    cases h
    rcases Outcome.bind_eq_error_iff.mp hbuild with hstart | ⟨start, hstart, hfill⟩
    · exact refuses_of_rootScope hstart
    · have hfilling : Filling tree registry vocabulary [tree.root.name] tree.root.name
          (tree.root.claims registry) start {} := by
        refine ⟨List.mem_singleton_self _, List.mem_singleton_self _, .refl, sound_empty _,
          traced_empty, tree.root, hroot, List.Subset.refl _, ?_⟩
        intro term entry hterm
        exact .inl ⟨rfl, (get?_rootScope_iff hstart).mp hterm⟩
      obtain ⟨starts, hrun⟩ := exists_run tree registry [tree.root.name] tree.root.name
        (tree.root.claims registry) start {}
      exact refuses_of_run hnames hrun hfill hfilling
  · cases h

end Context

end LinkedSchema
