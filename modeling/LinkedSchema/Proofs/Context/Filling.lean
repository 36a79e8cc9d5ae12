import LinkedSchema.Proofs.Context.Run

/-!
# Filling a scope

Filling a scope with claims honours them and keeps what was kept as it should be. Every scope that
was built meanwhile occurs in the filled scope: so a type that is no longer active then, because
its scope is finished, has in its scope all the scopes in which it is a plain term.
-/

namespace LinkedSchema

namespace Context

variable {tree : SchemaTree} {registry : Registry} {active : List String} {owner : String}
  {claims : List Claim} {scope extended : Scope} {memo grown : ContextMemo}

/-- The meaning of a type with a scope leads to this scope, if to any. -/
theorem eq_of_typeEntry_eq_scoped {id other : String} {inner scope : Scope}
    (h : typeEntry id inner = .scoped other scope) : inner = scope := by
  unfold typeEntry at h
  split at h
  · cases h
  · exact (Entry.scoped.inj h).2

/-- A type whose scope has terms is a scoped term. -/
theorem typeEntry_of_ne_nil {id : String} {inner : Scope} (h : inner ≠ []) :
    typeEntry id inner = .scoped id inner := by
  unfold typeEntry
  rw [if_neg]
  simpa using h

/-- A claim is honoured where it has given its term the meaning. -/
theorem Assigns.honours {head : Claim} {term : String} {entry : Entry}
    (h : Assigns registry active memo head term entry) (hterm : scope.get? term = some entry) :
    Honours registry memo (· ∈ active) scope head := by
  cases h with
  | field => exact hterm
  | active hid hactive =>
    intro other hother
    cases hid.symm.trans hother
    exact .inr ⟨hactive, hterm⟩
  | kept hid _ hkept =>
    intro other hother
    cases hid.symm.trans hother
    exact .inl ⟨_, hkept, hterm⟩

/-- Only the claim of a type gives a meaning with a scope, the one that is kept for the type. -/
theorem Assigns.kept_of_scoped {head : Claim} {term id : String} {inner : Scope}
    (h : Assigns registry active memo head term (.scoped id inner)) :
    memo.scopes.get? term = some inner ∧ head = .type term := by
  generalize hentry : Entry.scoped id inner = entry at h
  cases h with
  | field => cases hentry
  | active => cases hentry
  | kept _ _ hkept =>
    obtain rfl := eq_of_typeEntry_eq_scoped hentry.symm
    exact ⟨hkept, rfl⟩

/-- What filling a scope with claims has done: from a scope and a memo to an extended scope and a
grown memo. -/
structure Filled (tree : SchemaTree) (registry : Registry) (active : List String)
    (claims : List Claim) (scope : Scope) (memo : ContextMemo) (extended : Scope)
    (grown : ContextMemo) : Prop extends Extends active scope memo extended grown where
  honours : ∀ claim ∈ claims, Honours registry grown (· ∈ active) extended claim
  nests : ∀ term id inner, extended.get? term = some (.scoped id inner) →
    scope.get? term = some (.scoped id inner) ∨
      grown.scopes.get? term = some inner ∧ .type term ∈ claims
  occurs : ∀ type inner, grown.scopes.get? type = some inner → memo.scopes.get? type = none →
    inner ≠ [] → inner.Occurs type extended
  sound : Sound tree registry active grown

namespace Filled

/-- Without claims nothing happens. -/
theorem nil (h : Sound tree registry active memo) :
    Filled tree registry active [] scope memo scope memo where
  toExtends := .refl active scope memo
  honours := by simp
  nests := fun _ _ _ h => .inl h
  occurs := by
    intro type inner hkept hnone
    rw [hnone] at hkept
    cases hkept
  sound := h

/-- A first claim that is accepted, and then the others. -/
theorem take {head : Claim} {term : String} {entry : Entry} {middle : Scope}
    (hassigns : Assigns registry active memo head term entry)
    (hclaim : claim memo owner scope term entry = .ok middle)
    (h : Filled tree registry active claims middle memo extended grown) :
    Filled tree registry active (head :: claims) scope memo extended grown where
  toExtends := (Extends.of_claim hclaim).trans h.toExtends
  honours := by
    have hterm : middle.get? term = some entry :=
      (Scope.get?_of_claim (scope_claim_of_claim hclaim) term).trans (if_pos rfl)
    intro other hother
    rcases List.mem_cons.mp hother with rfl | hother
    · exact (hassigns.honours hterm).mono h.grows (fun _ h => h) h.keeps
    · exact h.honours other hother
  nests := by
    intro other id inner hother
    rcases h.nests other id inner hother with hmiddle | ⟨hkept, hclaimed⟩
    · rcases (Scope.get?_eq_some_iff_of_claim (scope_claim_of_claim hclaim)).mp hmiddle with
        ⟨rfl, rfl⟩ | hscope
      · obtain ⟨hkept, rfl⟩ := hassigns.kept_of_scoped
        exact .inr ⟨h.grows _ _ hkept, List.mem_cons_self⟩
      · exact .inl hscope
    · exact .inr ⟨hkept, List.mem_cons_of_mem _ hclaimed⟩
  occurs := h.occurs
  sound := h.sound

/-- A type without a class identifier has nothing to be honoured. -/
theorem pass {type : String} (hid : registry.classId? type = none)
    (h : Filled tree registry active claims scope (memo.note tree type) extended grown) :
    Filled tree registry active (.type type :: claims) scope memo extended grown where
  toExtends := (Extends.of_note tree type).trans h.toExtends
  honours := by
    intro claim hclaim
    rcases List.mem_cons.mp hclaim with rfl | hclaim
    · intro id hsome
      rw [hid] at hsome
      cases hsome
    · exact h.honours claim hclaim
  nests := by
    intro term id inner hterm
    rcases h.nests term id inner hterm with hscope | ⟨hkept, hclaimed⟩
    · exact .inl hscope
    · exact .inr ⟨hkept, List.mem_cons_of_mem _ hclaimed⟩
  occurs := by
    intro other inner hkept hnone
    apply h.occurs other inner hkept
    rw [ContextMemo.scopes_note]
    exact hnone
  sound := h.sound

/-- Where the scope of a type stands, everything that was built for it occurs. -/
theorem occurs_keep {type id : String} {inner : Scope} {within : ContextMemo}
    (h : Filled tree registry (type :: active) claims [] memo inner within)
    (hterm : extended.get? type = some (typeEntry id inner)) {other : String} {built : Scope}
    (hbuilt : (within.keep type inner).scopes.get? other = some built)
    (hnone : memo.scopes.get? other = none) (hne : built ≠ []) : built.Occurs other extended := by
  have hscoped : inner ≠ [] → extended.get? type = some (.scoped id inner) := by
    intro hinner
    rw [hterm, typeEntry_of_ne_nil hinner]
  rw [ContextMemo.get?_scopes_keep] at hbuilt
  by_cases heq : type = other
  · subst heq
    rw [if_pos rfl] at hbuilt
    cases hbuilt
    exact .here (hscoped hne)
  · rw [if_neg heq] at hbuilt
    have hoccurs := h.occurs other built hbuilt hnone hne
    exact .inside (hscoped hoccurs.ne_nil) hoccurs

/-- A missing scope that is built and kept, and then the claim of its type and the others. -/
theorem build {type : String} {others : List Claim} {inner : Scope} {within : ContextMemo}
    (hwanting : Wanting registry active memo type)
    (hinner : Filled tree registry (type :: active) others [] memo inner within)
    (h : Filled tree registry active (.type type :: claims) scope (within.keep type inner) extended
      grown) :
    Filled tree registry active (.type type :: claims) scope memo extended grown where
  toExtends := (Extends.of_keep hwanting hinner.toExtends).trans h.toExtends
  honours := h.honours
  nests := h.nests
  occurs := by
    intro other built hkept hnone hne
    cases hmore : (within.keep type inner).scopes.get? other with
    | none => exact h.occurs other built hkept hmore hne
    | some old =>
      have heq : built = old := Option.some.inj (hkept.symm.trans (h.grows _ _ hmore))
      subst heq
      have hgrown : grown.scopes.get? type = some inner :=
        h.grows _ _ (ContextMemo.get?_scopes_keep_self within type inner)
      obtain ⟨id, hid⟩ := hwanting.identified
      rcases h.honours _ List.mem_cons_self id hid with ⟨found, hfound, hterm⟩ | ⟨hactive, -⟩
      · obtain rfl : found = inner := Option.some.inj (hfound.symm.trans hgrown)
        exact hinner.occurs_keep hterm hmore hnone hne
      · exact absurd hactive hwanting.idle
  sound := h.sound

/-- A scope that was just built is as it should be once it is kept, and so are those that were built
meanwhile, since they occur in it. -/
theorem sound_keep {definition : TypeDefinition} {type : String} {start inner : Scope}
    {memo grown : ContextMemo} (hsound : Sound tree registry active memo)
    (hdefinition : tree.get? type = some definition) (hnone : memo.scopes.get? type = none)
    (hstart : start.IsFlat)
    (h : Filled tree registry (type :: active) (definition.claims registry) start memo inner
      grown) :
    Sound tree registry active (grown.keep type inner) := by
  have hfree : grown.scopes.get? type = none := (h.idle type List.mem_cons_self).trans hnone
  have hkeep := ContextMemo.grows_keep hfree inner
  intro other scope hother
  rw [ContextMemo.get?_scopes_keep] at hother
  by_cases heq : type = other
  · subst heq
    rw [if_pos rfl] at hother
    cases hother
    refine ⟨?_, ?_⟩
    · intro found hfound claim hclaim
      cases hdefinition.symm.trans hfound
      refine (h.honours claim hclaim).mono hkeep ?_ fun _ _ h => h
      intro target htarget
      rcases List.mem_cons.mp htarget with rfl | htarget
      · exact .inl rfl
      · exact .inr (.inl htarget)
    · intro term id nested hterm
      rcases h.nests term id nested hterm with hflat | hkept
      · exact absurd hflat (hstart term id nested)
      · exact ⟨hkeep _ _ hkept.1, definition, hdefinition, hkept.2⟩
  · rw [if_neg heq] at hother
    cases hmemo : memo.scopes.get? other with
    | some old =>
      have hold : old = scope := Option.some.inj ((h.grows _ _ hmemo).symm.trans hother)
      subst hold
      exact (hsound other old hmemo).mono (h.grows.trans hkeep) fun _ h => .inl h
    | none =>
      -- The scope was built while `type` was active, and from now on it occurs in that of `type`.
      refine (h.sound other scope hother).mono hkeep ?_
      intro target htarget
      rcases List.mem_cons.mp htarget with rfl | htarget
      · refine .inr ⟨inner, ?_, h.occurs other scope hother hmemo⟩
        exact ContextMemo.get?_scopes_keep_self grown _ inner
      · exact .inl htarget

end Filled

/-- A run that succeeds while the kept scopes are as they should be does all of it. -/
theorem filled_of_run {starts : List Start}
    {outcome : Except (Interruption ContextError ContextMemo) (Scope × ContextMemo)}
    (h : Run tree registry active owner claims scope memo starts outcome)
    (hok : outcome = .ok (extended, grown)) (hsound : Sound tree registry active memo) :
    Filled tree registry active claims scope memo extended grown := by
  induction h generalizing extended grown with
  | done =>
    cases hok
    exact .nil hsound
  | take hassigns hclaim _ ih => exact .take hassigns hclaim (ih hok hsound)
  | refuse => cases hok
  | pass hid _ ih => exact .pass hid (ih hok (hsound.note _))
  | undefined => cases hok
  | abandon => cases hok
  | build hwanting hdefinition _ _ ihinner ih =>
    have hinner := ihinner rfl (hsound.cons _)
    have hkept := hinner.sound_keep hsound hdefinition hwanting.missing Scope.isFlat_nil
    exact .build hwanting hinner (ih hok hkept)

/-- Filling a scope while the kept scopes are as they should be does all of it. -/
theorem filled_of_fill
    (h : fill tree registry active owner claims scope memo = .ok (extended, grown))
    (hsound : Sound tree registry active memo) :
    Filled tree registry active claims scope memo extended grown := by
  obtain ⟨starts, hrun⟩ := exists_run tree registry active owner claims scope memo
  exact filled_of_run hrun h hsound

end Context

end LinkedSchema
