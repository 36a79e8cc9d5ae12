import LinkedSchema.Context
import Mathlib.Init

/-!
# Scopes inside scopes

A claim that is accepted gives its term the claimed meaning and changes no other term. A scope
occurs in another under a type if the type is a scoped term there, or inside a scoped term at any
depth. What occurs in a scope is smaller than the scope, so no scope occurs in itself.
-/

namespace LinkedSchema.Scope

/-- An accepted claim gives the term its meaning and changes no other term. -/
theorem get?_of_claim {scope extended : Scope} {term : String} {entry : Entry}
    (h : scope.claim term entry = .ok extended) (other : String) :
    extended.get? other = if term = other then some entry else scope.get? other := by
  unfold claim at h
  split at h
  · next existing hexisting =>
    split at h
    · next heq =>
      cases h
      by_cases hterm : term = other
      · rw [if_pos hterm, ← hterm, hexisting, heq]
      · rw [if_neg hterm]
    · cases h
  · next hnone =>
    cases h
    have habsent : term ∉ Table.keys scope := Table.get?_eq_none_iff.mp hnone
    rw [← Table.insert_of_notMem habsent]
    exact Table.get?_insert scope term other entry

/-- A claim is accepted only where the term is new or has the claimed meaning. -/
theorem get?_eq_of_claim {scope extended : Scope} {term : String} {entry old : Entry}
    (h : scope.claim term entry = .ok extended) (hold : scope.get? term = some old) :
    old = entry := by
  unfold claim at h
  rw [hold] at h
  split at h
  · next existing hexisting =>
    cases hexisting
    split at h
    · assumption
    · cases h
  · next hnone => cases hnone

/-- An accepted claim keeps the meanings that terms had. -/
theorem get?_claim_of_get? {scope extended : Scope} {term other : String} {entry old : Entry}
    (h : scope.claim term entry = .ok extended) (hold : scope.get? other = some old) :
    extended.get? other = some old := by
  rw [get?_of_claim h]
  by_cases hterm : term = other
  · subst hterm
    rw [if_pos rfl, get?_eq_of_claim h hold]
  · rw [if_neg hterm, hold]

/-- After an accepted claim a term has the claimed meaning or the one that it had. -/
theorem get?_eq_some_iff_of_claim {scope extended : Scope} {term other : String}
    {entry found : Entry} (h : scope.claim term entry = .ok extended) :
    extended.get? other = some found ↔
      (term = other ∧ entry = found) ∨ scope.get? other = some found := by
  constructor
  · intro hfound
    rw [get?_of_claim h] at hfound
    split at hfound
    · next hterm => exact .inl ⟨hterm, Option.some.inj hfound⟩
    · exact .inr hfound
  · rintro (⟨rfl, rfl⟩ | hfound)
    · rw [get?_of_claim h, if_pos rfl]
    · exact get?_claim_of_get? h hfound

/-- A scope that is not empty has a term. -/
theorem exists_get?_of_ne_nil {scope : Scope} (h : scope ≠ []) :
    ∃ term entry, scope.get? term = some entry := by
  obtain ⟨⟨term, entry⟩, rest, rfl⟩ := List.exists_cons_of_ne_nil h
  exact ⟨term, entry, by rw [get?, Table.get?_cons, if_pos rfl]⟩

/-- A scope has a term exactly if the term stands for some identifier. -/
theorem mem_terms_iff {scope : Scope} {term : String} :
    term ∈ scope.terms ↔ ∃ id, scope.id? term = some id := by
  rw [terms, Table.mem_keys_iff, ← Option.isSome_iff_exists, ← Option.isSome_iff_exists, id?,
    Option.isSome_map, get?]

/-- No term of a scope has a scope of its own. -/
def IsFlat (scope : Scope) : Prop :=
  ∀ term id inner, scope.get? term ≠ some (.scoped id inner)

/-- The empty scope is flat. -/
theorem isFlat_nil : IsFlat [] := by
  rintro term id inner ⟨⟩

/-- A scope stays flat when a plain term is claimed. -/
theorem IsFlat.claim {scope extended : Scope} {term id : String} (h : scope.IsFlat)
    (hclaim : scope.claim term (.iri id) = .ok extended) : extended.IsFlat := by
  intro other otherId inner hother
  rw [get?_of_claim hclaim] at hother
  split at hother
  · cases hother
  · exact h other otherId inner hother

/-- A type has a scope at some depth of another scope. -/
inductive Occurs (type : String) (inner : Scope) : Scope → Prop
  | here {scope : Scope} {id : String} : scope.get? type = some (.scoped id inner) →
    Occurs type inner scope
  | inside {scope middle : Scope} {term id : String} :
    scope.get? term = some (.scoped id middle) → Occurs type inner middle →
    Occurs type inner scope

/-- A scope in which something occurs has a term. -/
theorem Occurs.ne_nil {type : String} {inner scope : Scope} (h : Occurs type inner scope) :
    scope ≠ [] := by
  rintro rfl
  cases h with
  | here h => cases h
  | inside h => cases h

/-- A scope that occurs in an inner scope occurs in the outer one. -/
theorem Occurs.trans {type other : String} {inner middle scope : Scope}
    (houter : Occurs other middle scope) (hinner : Occurs type inner middle) :
    Occurs type inner scope := by
  induction houter with
  | here h => exact .inside h hinner
  | inside h _ ih => exact .inside h ih

/-- The scope inside a term is smaller than the scope of the term. -/
theorem sizeOf_lt_of_get? {scope inner : Scope} {term id : String}
    (h : scope.get? term = some (.scoped id inner)) : sizeOf inner < sizeOf scope := by
  have hmem := List.sizeOf_lt_of_mem (Table.mem_of_get? h)
  simp only [Prod.mk.sizeOf_spec, Entry.scoped.sizeOf_spec] at hmem
  omega

/-- What occurs in a scope is smaller than the scope. -/
theorem Occurs.sizeOf_lt {type : String} {inner scope : Scope} (h : Occurs type inner scope) :
    sizeOf inner < sizeOf scope := by
  induction h with
  | here h => exact sizeOf_lt_of_get? h
  | inside h _ ih =>
    have hmiddle := sizeOf_lt_of_get? h
    omega

/-- Somewhere in a scope the scope of one type lies inside the scope of another. -/
def Encloses (scope : Scope) (outer inner : String) : Prop :=
  ∃ around, Occurs outer around scope ∧ ∃ inside, Occurs inner inside around

/-- A scope stands for a type in the context of a root: the context itself for the root, and for
another type what occurs in the context. -/
def StandsFor (context : Scope) (root type : String) (scope : Scope) : Prop :=
  (type = root ∧ scope = context) ∨ scope.Occurs type context

/-- The scope to which a path of types leads. -/
def follow (scope : Scope) : List String → Option Scope
  | [] => some scope
  | type :: types => (scope.inner? type).bind fun inner => follow inner types

/-- A term leads to a scope exactly where it is a scoped term. -/
theorem inner?_eq_some_iff {scope inner : Scope} {term : String} :
    scope.inner? term = some inner ↔ ∃ id, scope.get? term = some (.scoped id inner) := by
  unfold inner?
  split
  · next id terms h => simp [h]
  · next h =>
    constructor
    · rintro ⟨⟩
    · rintro ⟨id, hterm⟩
      exact absurd hterm (h id inner)

end LinkedSchema.Scope
