import LinkedSchema.Proofs.Context.Scope

/-!
# What the memo of a context holds

A scope is built once, while some types are active, and is taken from the memo afterwards. What can
be said of it at any later time is this: each claim of its type is honoured, by a plain term only
for the type itself, for a type that is still active, and for a type inside whose own scope it
occurs.
-/

namespace LinkedSchema

namespace ContextMemo

/-- Every scope that is kept stays kept. -/
def Grows (memo more : ContextMemo) : Prop :=
  ∀ type scope, memo.scopes.get? type = some scope → more.scopes.get? type = some scope

/-- A memo grows into itself. -/
theorem Grows.refl (memo : ContextMemo) : memo.Grows memo := fun _ _ h => h

/-- Growth goes on. -/
theorem Grows.trans {a b c : ContextMemo} (hab : a.Grows b) (hbc : b.Grows c) : a.Grows c :=
  fun type scope h => hbc type scope (hab type scope h)

/-- What has a kept scope has one when more is kept. -/
theorem Grows.names_subset {memo more : ContextMemo} (h : memo.Grows more) :
    memo.scopes.names ⊆ more.scopes.names := by
  intro type htype
  obtain ⟨scope, hscope⟩ := Directory.mem_names_iff.mp htype
  exact Directory.mem_names_iff.mpr ⟨scope, h type scope hscope⟩

/-- Noting a type leaves all finished scopes as they are. -/
theorem scopes_note (memo : ContextMemo) (tree : SchemaTree) (type : String) :
    (memo.note tree type).scopes = memo.scopes := by
  unfold note
  split <;> rfl

/-- A kept scope is found under its type, and all others are found as before. -/
theorem get?_scopes_keep (memo : ContextMemo) (type other : String) (scope : Scope) :
    (memo.keep type scope).scopes.get? other =
      if type = other then some scope else memo.scopes.get? other :=
  Directory.get?_insert memo.scopes type other scope

/-- A scope that was just kept is kept. -/
theorem get?_scopes_keep_self (memo : ContextMemo) (type : String) (scope : Scope) :
    (memo.keep type scope).scopes.get? type = some scope := by
  rw [get?_scopes_keep, if_pos rfl]

/-- Keeping the scope of a type that has none is a growth. -/
theorem grows_keep {memo : ContextMemo} {type : String} (h : memo.scopes.get? type = none)
    (scope : Scope) : memo.Grows (memo.keep type scope) := by
  intro other old hold
  rw [get?_scopes_keep, if_neg, hold]
  rintro rfl
  rw [h] at hold
  cases hold

end ContextMemo

namespace Context

/-- A scope honours a claim: a field has its identifier, and a type with a class identifier has the
scope that is kept for it, or is a plain term where that is permitted. -/
def Honours (registry : Registry) (memo : ContextMemo) (plain : String → Prop) (scope : Scope) :
    Claim → Prop
  | .field name id => scope.get? name = some (.iri id)
  | .type type => ∀ id, registry.classId? type = some id →
    (∃ inner, memo.scopes.get? type = some inner ∧
      scope.get? type = some (typeEntry id inner)) ∨
    plain type ∧ scope.get? type = some (.iri id)

/-- A claim stays honoured when more is kept, more may be plain, and the scope has more terms. -/
theorem Honours.mono {registry : Registry} {memo more : ContextMemo} {plain plain' : String → Prop}
    {scope extended : Scope} {claim : Claim} (h : Honours registry memo plain scope claim)
    (hmemo : memo.Grows more) (hplain : ∀ type, plain type → plain' type)
    (hscope : ∀ term entry, scope.get? term = some entry → extended.get? term = some entry) :
    Honours registry more plain' extended claim := by
  cases claim with
  | field name id => exact hscope _ _ h
  | type type =>
    intro id hid
    rcases h id hid with ⟨inner, hkept, hterm⟩ | ⟨hpermitted, hterm⟩
    · exact .inl ⟨inner, hmemo _ _ hkept, hscope _ _ hterm⟩
    · exact .inr ⟨hplain _ hpermitted, hscope _ _ hterm⟩

/-- A kept scope of a type lies inside the scope that is kept for another type. -/
def LiesInside (memo : ContextMemo) (type : String) (scope : Scope) (outer : String) : Prop :=
  ∃ around, memo.scopes.get? outer = some around ∧ (scope ≠ [] → scope.Occurs type around)

/-- What holds of the kept scope of a type while some types are active. -/
structure Kept (tree : SchemaTree) (registry : Registry) (active : List String)
    (memo : ContextMemo) (type : String) (scope : Scope) : Prop where
  honours : ∀ definition, tree.get? type = some definition →
    ∀ claim ∈ definition.claims registry, Honours registry memo
      (fun target => target = type ∨ target ∈ active ∨ LiesInside memo type scope target)
      scope claim
  nests : ∀ term id inner, scope.get? term = some (.scoped id inner) →
    memo.scopes.get? term = some inner ∧
      ∃ definition, tree.get? type = some definition ∧ .type term ∈ definition.claims registry

variable {tree : SchemaTree} {registry : Registry} {active : List String}

/-- Every kept scope is as it should be while some types are active. -/
def Sound (tree : SchemaTree) (registry : Registry) (active : List String) (memo : ContextMemo) :
    Prop :=
  ∀ type scope, memo.scopes.get? type = some scope → Kept tree registry active memo type scope

/-- A kept scope stays as it should be when more is kept and as long as active types stay active or
lie around it. -/
theorem Kept.mono {memo more : ContextMemo} {active' : List String} {type : String} {scope : Scope}
    (h : Kept tree registry active memo type scope) (hmemo : memo.Grows more)
    (hactive : ∀ target ∈ active, target ∈ active' ∨ LiesInside more type scope target) :
    Kept tree registry active' more type scope where
  honours := by
    intro definition hdefinition claim hclaim
    refine (h.honours definition hdefinition claim hclaim).mono hmemo ?_ fun _ _ h => h
    rintro target (rfl | htarget | ⟨around, hkept, hinside⟩)
    · exact .inl rfl
    · exact .inr (hactive target htarget)
    · exact .inr (.inr ⟨around, hmemo _ _ hkept, hinside⟩)
  nests := by
    intro term id inner hterm
    obtain ⟨hkept, hclaimed⟩ := h.nests term id inner hterm
    exact ⟨hmemo _ _ hkept, hclaimed⟩

/-- What is kept stays as it should be when more types are active. -/
theorem Sound.cons {memo : ContextMemo} (h : Sound tree registry active memo) (type : String) :
    Sound tree registry (type :: active) memo :=
  fun other scope hother =>
    (h other scope hother).mono (.refl memo) fun _ h => .inl (List.mem_cons_of_mem type h)

/-- Noting a type without a class identifier keeps what is kept as it should be. -/
theorem Sound.note {memo : ContextMemo} (h : Sound tree registry active memo) (type : String) :
    Sound tree registry active (memo.note tree type) := by
  intro other scope hother
  rw [ContextMemo.scopes_note] at hother
  refine (h other scope hother).mono ?_ fun _ h => .inl h
  intro _ _ h
  rw [ContextMemo.scopes_note]
  exact h

/-- A scope that occurs in a kept scope is the one that is kept for its type. -/
theorem Sound.get?_of_occurs {memo : ContextMemo} (h : Sound tree registry active memo)
    {type other : String} {inner scope : Scope} (hkept : memo.scopes.get? other = some scope)
    (hoccurs : inner.Occurs type scope) : memo.scopes.get? type = some inner := by
  induction hoccurs generalizing other with
  | here hterm => exact ((h other _ hkept).nests _ _ _ hterm).1
  | inside hterm _ ih => exact ih ((h other _ hkept).nests _ _ _ hterm).1

end Context

end LinkedSchema
