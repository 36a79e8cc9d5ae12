import LinkedSchema.Proofs.Context.Memo
import LinkedSchema.Proofs.Outcome
import Mathlib.Data.List.Nodup

/-!
# Runs that fill a scope

A run fills a scope claim by claim. It takes the meaning of a claim into the scope or is refused
there, and it passes over a type without a class identifier. A type whose scope is missing has it
built first, by a run of its own one level down. Every filling is such a run, so it comes to an end.
The scopes on which a run starts are of different types: whatever it started on before is active
still, or is kept.
-/

namespace LinkedSchema

namespace Directory

variable {α : Type} {directory : Directory α}

/-- After a value was put in, a name is present if it was before or is that of the value. -/
theorem mem_names_insert {name other : String} {value : α} :
    other ∈ (directory.insert name value).names ↔ name = other ∨ other ∈ directory.names := by
  rw [mem_names_iff, mem_names_iff, get?_insert]
  by_cases hname : name = other
  · simp [hname]
  · simp [hname]

end Directory

namespace Context

variable {tree : SchemaTree} {registry : Registry} {active : List String} {owner : String}
  {memo : ContextMemo} {scope : Scope} {claims : List Claim}

/-- A claim that is accepted is accepted by the scope. -/
theorem scope_claim_of_claim {extended : Scope} {term : String} {entry : Entry}
    (h : claim memo owner scope term entry = .ok extended) :
    scope.claim term entry = .ok extended :=
  Outcome.mapError_eq_ok_iff.mp h

/-- The meaning that a claim gives its term while some types are active and some scopes are kept. -/
inductive Assigns (registry : Registry) (active : List String) (memo : ContextMemo) :
    Claim → String → Entry → Prop
  | field {name id : String} : Assigns registry active memo (.field name id) name (.iri id)
  | active {type id : String} : registry.classId? type = some id → type ∈ active →
    Assigns registry active memo (.type type) type (.iri id)
  | kept {type id : String} {inner : Scope} : registry.classId? type = some id → type ∉ active →
    memo.scopes.get? type = some inner →
    Assigns registry active memo (.type type) type (typeEntry id inner)

/-- A claim gives the same meaning when more is kept. -/
theorem Assigns.mono {more : ContextMemo} {claim : Claim} {term : String} {entry : Entry}
    (h : Assigns registry active memo claim term entry) (hgrows : memo.Grows more) :
    Assigns registry active more claim term entry := by
  cases h with
  | field => exact .field
  | active hid hactive => exact .active hid hactive
  | kept hid hactive hkept => exact .kept hid hactive (hgrows _ _ hkept)

/-- The claim of a type gives it one meaning. -/
theorem Assigns.unique {type : String} {entry other : Entry}
    (h : Assigns registry active memo (.type type) type entry)
    (hother : Assigns registry active memo (.type type) type other) : entry = other := by
  cases h with
  | active hid hactive =>
    cases hother with
    | active hsame _ => rw [Option.some.inj (hid.symm.trans hsame)]
    | kept _ hidle _ => exact absurd hactive hidle
  | kept hid hidle hkept =>
    cases hother with
    | active _ hactive => exact absurd hactive hidle
    | kept hsame _ hfound =>
      rw [Option.some.inj (hid.symm.trans hsame), Option.some.inj (hkept.symm.trans hfound)]

/-- A claim that has a meaning is met by claiming it, before the claims that are left. -/
theorem fill_of_assigns {head : Claim} {term : String} {entry : Entry}
    (h : Assigns registry active memo head term entry) :
    fill tree registry active owner (head :: claims) scope memo =
      claim memo owner scope term entry >>=
        fun middle => fill tree registry active owner claims middle memo := by
  cases h with
  | field =>
    rw [fill]
    cases claim memo owner scope _ _ <;> rfl
  | active hid hactive =>
    rw [fill, hid]
    simp only [hactive, ↓reduceDIte]
    cases claim memo owner scope _ _ <;> rfl
  | kept hid hidle hkept =>
    rw [fill, hid]
    simp only [hidle, hkept, ↓reduceDIte]
    cases claim memo owner scope _ _ <;> rfl

/-- The scope of a type is wanted and missing: the type has a class identifier, it is not active,
and no scope is kept for it. -/
structure Wanting (registry : Registry) (active : List String) (memo : ContextMemo)
    (type : String) : Prop where
  identified : ∃ id, registry.classId? type = some id
  idle : type ∉ active
  missing : memo.scopes.get? type = none

/-- No scope is kept under a type whose scope is missing. -/
theorem Wanting.notMem_names {type : String} (h : Wanting registry active memo type) :
    type ∉ memo.scopes.names :=
  Directory.get?_eq_none_iff.mp h.missing

/-- A missing scope of a type that has no definition ends the filling. -/
theorem fill_of_undefined {type : String} (h : Wanting registry active memo type)
    (hundefined : tree.get? type = none) :
    fill tree registry active owner (.type type :: claims) scope memo =
      .error ⟨.missingDefinition type, memo⟩ := by
  obtain ⟨id, hid⟩ := h.identified
  rw [fill, hid]
  simp only [h.idle, h.missing, ↓reduceDIte]
  split
  · rfl
  · next definition hdefinition =>
    rw [hundefined] at hdefinition
    cases hdefinition

/-- A missing scope of a type is filled first. When it is kept, the claim of the type is met like
any other. -/
theorem fill_of_wanting {type : String} {definition : TypeDefinition}
    (h : Wanting registry active memo type) (hdefinition : tree.get? type = some definition) :
    fill tree registry active owner (.type type :: claims) scope memo =
      fill tree registry (type :: active) definition.name (definition.claims registry) [] memo >>=
        fun filled => fill tree registry active owner (.type type :: claims) scope
          (filled.2.keep type filled.1) := by
  obtain ⟨id, hid⟩ := h.identified
  rw [fill, hid]
  simp only [h.idle, h.missing, ↓reduceDIte]
  split
  · next hundefined =>
    rw [hundefined] at hdefinition
    cases hdefinition
  · next found hfound =>
    obtain rfl : definition = found := Option.some.inj (hdefinition.symm.trans hfound)
    cases fill tree registry (type :: active) definition.name (definition.claims registry) []
      memo with
    | error interruption => rfl
    | ok filled =>
      obtain ⟨inner, within⟩ := filled
      have hkept : (within.keep type inner).scopes.get? type = some inner :=
        ContextMemo.get?_scopes_keep_self within type inner
      have hassigns : Assigns registry active (within.keep type inner) (.type type) type
          (typeEntry id inner) := .kept hid h.idle hkept
      refine Eq.trans ?_ (fill_of_assigns hassigns).symm
      dsimp only
      cases claim (within.keep type inner) owner scope type (typeEntry id inner) <;> rfl

/-- A scope on which a run starts: its type, the types that are active at that time, the innermost
first, and what is kept then. -/
structure Start where
  type : String
  active : List String
  memo : ContextMemo

/-- The runs that fill a scope, each with the scopes on which it starts and with its outcome. -/
inductive Run (tree : SchemaTree) (registry : Registry) :
    List String → String → List Claim → Scope → ContextMemo → List Start →
      Except (Interruption ContextError ContextMemo) (Scope × ContextMemo) → Prop
  | done {active : List String} {owner : String} {scope : Scope} {memo : ContextMemo} :
    Run tree registry active owner [] scope memo [] (.ok (scope, memo))
  | take {active : List String} {owner : String} {head : Claim} {claims : List Claim}
    {scope middle : Scope} {memo : ContextMemo} {term : String} {entry : Entry}
    {starts : List Start} {outcome : Except (Interruption ContextError ContextMemo) _} :
    Assigns registry active memo head term entry →
    claim memo owner scope term entry = .ok middle →
    Run tree registry active owner claims middle memo starts outcome →
    Run tree registry active owner (head :: claims) scope memo starts outcome
  | refuse {active : List String} {owner : String} {head : Claim} {claims : List Claim}
    {scope : Scope} {memo : ContextMemo} {term : String} {entry : Entry}
    {interruption : Interruption ContextError ContextMemo} :
    Assigns registry active memo head term entry →
    claim memo owner scope term entry = .error interruption →
    Run tree registry active owner (head :: claims) scope memo [] (.error interruption)
  | pass {active : List String} {owner type : String} {claims : List Claim} {scope : Scope}
    {memo : ContextMemo} {starts : List Start}
    {outcome : Except (Interruption ContextError ContextMemo) _} :
    registry.classId? type = none →
    Run tree registry active owner claims scope (memo.note tree type) starts outcome →
    Run tree registry active owner (.type type :: claims) scope memo starts outcome
  | undefined {active : List String} {owner type : String} {claims : List Claim} {scope : Scope}
    {memo : ContextMemo} :
    Wanting registry active memo type → tree.get? type = none →
    Run tree registry active owner (.type type :: claims) scope memo []
      (.error ⟨.missingDefinition type, memo⟩)
  | abandon {active : List String} {owner type : String} {claims : List Claim} {scope : Scope}
    {memo : ContextMemo} {definition : TypeDefinition} {starts : List Start}
    {interruption : Interruption ContextError ContextMemo} :
    Wanting registry active memo type → tree.get? type = some definition →
    Run tree registry (type :: active) definition.name (definition.claims registry) [] memo starts
      (.error interruption) →
    Run tree registry active owner (.type type :: claims) scope memo
      (⟨type, active, memo⟩ :: starts) (.error interruption)
  | build {active : List String} {owner type : String} {claims : List Claim}
    {scope inner : Scope} {memo within : ContextMemo} {definition : TypeDefinition}
    {starts later : List Start} {outcome : Except (Interruption ContextError ContextMemo) _} :
    Wanting registry active memo type → tree.get? type = some definition →
    Run tree registry (type :: active) definition.name (definition.claims registry) [] memo starts
      (.ok (inner, within)) →
    Run tree registry active owner (.type type :: claims) scope (within.keep type inner) later
      outcome →
    Run tree registry active owner (.type type :: claims) scope memo
      (⟨type, active, memo⟩ :: (starts ++ later)) outcome

/-- A scope and a memo are extended: the terms keep their meanings, what is kept stays kept, nothing
new is kept for the active types, and noted types stay noted. -/
structure Extends (active : List String) (scope : Scope) (memo : ContextMemo) (extended : Scope)
    (grown : ContextMemo) : Prop where
  keeps : ∀ term entry, scope.get? term = some entry → extended.get? term = some entry
  grows : memo.Grows grown
  idle : ∀ type ∈ active, grown.scopes.get? type = memo.scopes.get? type
  notes : memo.unscoped ⊆ grown.unscoped

namespace Extends

variable {middle extended inner : Scope} {more grown within : ContextMemo} {type : String}

/-- A scope and a memo extend themselves. -/
theorem refl (active : List String) (scope : Scope) (memo : ContextMemo) :
    Extends active scope memo scope memo where
  keeps := fun _ _ h => h
  grows := .refl memo
  idle := fun _ _ => rfl
  notes := List.Subset.refl _

/-- An extension of an extension is one. -/
theorem trans (h : Extends active scope memo middle more)
    (hmore : Extends active middle more extended grown) :
    Extends active scope memo extended grown where
  keeps := fun term entry hterm => hmore.keeps term entry (h.keeps term entry hterm)
  grows := h.grows.trans hmore.grows
  idle := fun other hother => (hmore.idle other hother).trans (h.idle other hother)
  notes := List.Subset.trans h.notes hmore.notes

/-- An accepted claim extends the scope. -/
theorem of_claim {term : String} {entry : Entry}
    (hclaim : claim memo owner scope term entry = .ok middle) :
    Extends active scope memo middle memo where
  keeps := fun _ _ => Scope.get?_claim_of_get? (scope_claim_of_claim hclaim)
  grows := .refl memo
  idle := fun _ _ => rfl
  notes := List.Subset.refl _

/-- Noting a type extends the memo. -/
theorem of_note (tree : SchemaTree) (type : String) :
    Extends active scope memo scope (memo.note tree type) where
  keeps := fun _ _ h => h
  grows := by
    intro other kept hkept
    rwa [ContextMemo.scopes_note]
  idle := fun _ _ => by rw [ContextMemo.scopes_note]
  notes := by
    unfold ContextMemo.note
    split
    · exact List.Subset.refl _
    · exact List.subset_append_left _ _

/-- Building a missing scope and keeping it extends the memo. -/
theorem of_keep {start : Scope} (hwanting : Wanting registry active memo type)
    (h : Extends (type :: active) start memo inner within) :
    Extends active scope memo scope (within.keep type inner) where
  keeps := fun _ _ h => h
  grows := by
    have hfree : within.scopes.get? type = none :=
      (h.idle type List.mem_cons_self).trans hwanting.missing
    exact h.grows.trans (ContextMemo.grows_keep hfree inner)
  idle := by
    intro other hother
    have hne : type ≠ other := fun heq => hwanting.idle (heq ▸ hother)
    rw [ContextMemo.get?_scopes_keep, if_neg hne]
    exact h.idle other (List.mem_cons_of_mem type hother)
  notes := h.notes

end Extends

/-- Every filling is a run and so comes to an end. -/
theorem exists_run (tree : SchemaTree) (registry : Registry) (active : List String)
    (owner : String) (claims : List Claim) (scope : Scope) (memo : ContextMemo) :
    ∃ starts, Run tree registry active owner claims scope memo starts
      (fill tree registry active owner claims scope memo) := by
  fun_induction fill with
  | case1 => exact ⟨_, .done⟩
  | case2 active owner scope memo name id claims failed hclaim => exact ⟨_, .refuse .field hclaim⟩
  | case3 active owner scope memo name id claims middle hclaim ih =>
    obtain ⟨starts, hrun⟩ := ih
    exact ⟨starts, .take .field hclaim hrun⟩
  | case4 active owner scope memo type claims hid ih =>
    obtain ⟨starts, hrun⟩ := ih
    exact ⟨starts, .pass hid hrun⟩
  | case5 active owner scope memo type claims id hid hactive failed hclaim =>
    exact ⟨_, .refuse (.active hid hactive) hclaim⟩
  | case6 active owner scope memo type claims id hid hactive middle hclaim ih =>
    obtain ⟨starts, hrun⟩ := ih
    exact ⟨starts, .take (.active hid hactive) hclaim hrun⟩
  | case7 active owner scope memo type claims id hid hidle inner hinner failed hclaim =>
    exact ⟨_, .refuse (.kept hid hidle hinner) hclaim⟩
  | case8 active owner scope memo type claims id hid hidle inner hinner middle hclaim ih =>
    obtain ⟨starts, hrun⟩ := ih
    exact ⟨starts, .take (.kept hid hidle hinner) hclaim hrun⟩
  | case9 active owner scope memo type claims id hid hidle hnone hundefined =>
    exact ⟨_, .undefined ⟨⟨id, hid⟩, hidle, hnone⟩ hundefined⟩
  | case10 active owner scope memo type claims id hid hidle hnone definition hdefinition failed
      hfill ih =>
    have hwanting : Wanting registry active memo type := ⟨⟨id, hid⟩, hidle, hnone⟩
    obtain ⟨starts, hrun⟩ := ih
    rw [hfill] at hrun
    exact ⟨_, .abandon hwanting hdefinition hrun⟩
  | case11 active owner scope memo type claims id hid hidle hnone definition hdefinition inner
      within hfill kept failed hclaim ih =>
    have hwanting : Wanting registry active memo type := ⟨⟨id, hid⟩, hidle, hnone⟩
    have hkept : kept.scopes.get? type = some inner :=
      ContextMemo.get?_scopes_keep_self within type inner
    obtain ⟨starts, hrun⟩ := ih
    rw [hfill] at hrun
    exact ⟨_, .build hwanting hdefinition hrun (.refuse (.kept hid hidle hkept) hclaim)⟩
  | case12 active owner scope memo type claims id hid hidle hnone definition hdefinition inner
      within hfill kept middle hclaim ihinner =>
    rename_i ih
    have hwanting : Wanting registry active memo type := ⟨⟨id, hid⟩, hidle, hnone⟩
    have hkept : kept.scopes.get? type = some inner :=
      ContextMemo.get?_scopes_keep_self within type inner
    obtain ⟨starts, hrun⟩ := ihinner
    rw [hfill] at hrun
    obtain ⟨later, hlater⟩ := ih
    exact ⟨_, .build hwanting hdefinition hrun (.take (.kept hid hidle hkept) hclaim hlater)⟩

namespace Run

variable {starts : List Start}
  {outcome : Except (Interruption ContextError ContextMemo) (Scope × ContextMemo)}

/-- A run has the outcome of the filling. -/
theorem eq_fill (h : Run tree registry active owner claims scope memo starts outcome) :
    outcome = fill tree registry active owner claims scope memo := by
  induction h with
  | done => rw [fill]
  | take hassigns hclaim _ ih =>
    rw [fill_of_assigns hassigns, hclaim, ih]
    rfl
  | refuse hassigns hclaim =>
    rw [fill_of_assigns hassigns, hclaim]
    rfl
  | pass hid _ ih => rw [fill, hid, ih]
  | undefined hwanting hundefined => rw [fill_of_undefined hwanting hundefined]
  | abandon hwanting hdefinition _ ih =>
    rw [fill_of_wanting hwanting hdefinition, ← ih]
    rfl
  | build hwanting hdefinition _ _ ihinner ih =>
    rw [fill_of_wanting hwanting hdefinition, ← ihinner, ih]
    rfl

/-- A run that succeeds extends the scope and the memo. -/
theorem extend (h : Run tree registry active owner claims scope memo starts outcome)
    {extended : Scope} {grown : ContextMemo} (hok : outcome = .ok (extended, grown)) :
    Extends active scope memo extended grown := by
  induction h generalizing extended grown with
  | done =>
    cases hok
    exact .refl _ _ _
  | take _ hclaim _ ih => exact (Extends.of_claim hclaim).trans (ih hok)
  | refuse => cases hok
  | pass _ _ ih => exact (Extends.of_note _ _).trans (ih hok)
  | undefined => cases hok
  | abandon => cases hok
  | build hwanting _ _ _ ihinner ih => exact (Extends.of_keep hwanting (ihinner rfl)).trans (ih hok)

/-- After a run that succeeds each scope on which it started is kept. -/
theorem kept (h : Run tree registry active owner claims scope memo starts outcome)
    {extended : Scope} {grown : ContextMemo} (hok : outcome = .ok (extended, grown)) :
    ∀ start ∈ starts, start.type ∈ grown.scopes.names := by
  induction h generalizing extended grown with
  | done => simp
  | take _ _ _ ih => exact ih hok
  | refuse => simp
  | pass _ _ ih => exact ih hok
  | undefined => simp
  | abandon => cases hok
  | @build active owner type claims scope inner memo within definition starts later outcome
      _ _ _ hrest ihinner ih =>
    have hgrown := (hrest.extend hok).grows.names_subset
    intro start hstart
    rcases List.mem_cons.mp hstart with rfl | hstart
    · exact hgrown (Directory.mem_names_insert.mpr (.inl rfl))
    · rcases List.mem_append.mp hstart with hstart | hstart
      · exact hgrown (Directory.mem_names_insert.mpr (.inr (ihinner rfl start hstart)))
      · exact ih hok start hstart

/-- When a run starts on the scope of a type that has a definition, the scope is wanting. All that
is active or kept at the beginning of the run still is. -/
theorem fresh (h : Run tree registry active owner claims scope memo starts outcome) :
    ∀ start ∈ starts, active ⊆ start.active ∧ memo.Grows start.memo ∧
      Wanting registry start.active start.memo start.type ∧
      ∃ definition, tree.get? start.type = some definition := by
  induction h with
  | done => simp
  | take _ _ _ ih => exact ih
  | refuse => simp
  | @pass active owner type claims scope memo starts outcome _ _ ih =>
    intro start hstart
    obtain ⟨hactive, hgrows, hrest⟩ := ih start hstart
    have hnote : Extends active scope memo scope (memo.note tree type) := .of_note tree type
    exact ⟨hactive, hnote.grows.trans hgrows, hrest⟩
  | undefined => simp
  | abandon hwanting hdefinition _ ih =>
    intro start hstart
    rcases List.mem_cons.mp hstart with rfl | hstart
    · exact ⟨List.Subset.refl _, .refl _, hwanting, _, hdefinition⟩
    · obtain ⟨hactive, hrest⟩ := ih start hstart
      exact ⟨List.Subset.trans (List.subset_cons_self _ _) hactive, hrest⟩
  | @build active owner type claims scope inner memo within definition starts later outcome
      hwanting hdefinition hinner _ ihinner ih =>
    intro start hstart
    rcases List.mem_cons.mp hstart with rfl | hstart
    · exact ⟨List.Subset.refl _, .refl _, hwanting, _, hdefinition⟩
    · rcases List.mem_append.mp hstart with hstart | hstart
      · obtain ⟨hactive, hrest⟩ := ihinner start hstart
        exact ⟨List.Subset.trans (List.subset_cons_self _ _) hactive, hrest⟩
      · obtain ⟨hactive, hgrows, hrest⟩ := ih start hstart
        have hkeep : Extends active scope memo scope (within.keep type inner) :=
          .of_keep hwanting (hinner.extend rfl)
        exact ⟨hactive, hkeep.grows.trans hgrows, hrest⟩

/-- A run starts on the scopes of different types. -/
theorem nodup (h : Run tree registry active owner claims scope memo starts outcome) :
    (starts.map (·.type)).Nodup := by
  -- Inside the scope of a type the type is active, and later it is kept, like all inside it.
  have hactive : ∀ {type active owner claims scope memo starts outcome},
      Run tree registry (type :: active) owner claims scope memo starts outcome →
      type ∉ starts.map (·.type) := by
    intro type active owner claims scope memo starts outcome hrun hmem
    obtain ⟨start, hstart, rfl⟩ := List.mem_map.mp hmem
    obtain ⟨hactive, -, hwanting, -⟩ := hrun.fresh start hstart
    exact hwanting.idle (hactive List.mem_cons_self)
  induction h with
  | done => exact List.nodup_nil
  | take _ _ _ ih => exact ih
  | refuse => exact List.nodup_nil
  | pass _ _ ih => exact ih
  | undefined => exact List.nodup_nil
  | abandon _ _ hinner ih => exact List.nodup_cons.mpr ⟨hactive hinner, ih⟩
  | @build active owner type claims scope inner memo within definition starts later outcome
      _ _ hinner hrest ihinner ih =>
    have hlater : ∀ other, type = other ∨ other ∈ within.scopes.names →
        other ∉ later.map (·.type) := by
      intro other hother hmem
      obtain ⟨start, hstart, rfl⟩ := List.mem_map.mp hmem
      obtain ⟨-, hgrows, hwanting, -⟩ := hrest.fresh start hstart
      exact hwanting.notMem_names (hgrows.names_subset (Directory.mem_names_insert.mpr hother))
    rw [List.map_cons, List.map_append, List.nodup_cons, List.nodup_append']
    refine ⟨?_, ihinner, ih, ?_⟩
    · intro hmem
      rcases List.mem_append.mp hmem with hmem | hmem
      · exact hactive hinner hmem
      · exact hlater type (.inl rfl) hmem
    · intro other hother hmem
      obtain ⟨start, hstart, rfl⟩ := List.mem_map.mp hother
      exact hlater start.type (.inr (hinner.kept rfl start hstart)) hmem

end Run

end Context

end LinkedSchema
