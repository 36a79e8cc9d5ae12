import LinkedSchema.Proofs.Context.Scope
import LinkedSchema.Proofs.Json.Equality
import Mathlib.Data.List.Perm.Basic

/-!
# Contexts that agree

Two contexts of a root agree but for some terms if the same types have a scope in both, and if in the
scopes of a type all terms stand for the same identifiers and, but for those terms, have a scope in
both or in none. Scopes with the same terms, each once and with equal meanings, are equal as JSON
whatever the order of their terms.
-/

namespace LinkedSchema

namespace Scope

/-- The members of a scope as JSON are its terms with their meanings as JSON. -/
theorem membersToJson_eq_map (scope : Scope) :
    membersToJson scope = scope.map fun entry => (entry.1, entry.2.toJson) := by
  induction scope with
  | nil => rfl
  | cons entry entries ih =>
    obtain ⟨term, meaning⟩ := entry
    rw [membersToJson, List.map_cons, ih]

/-- The member of a term is its meaning as JSON. -/
theorem get?_membersToJson (scope : Scope) (term : String) :
    Table.get? (membersToJson scope) term = (scope.get? term).map Entry.toJson := by
  induction scope with
  | nil => rfl
  | cons entry entries ih =>
    obtain ⟨first, meaning⟩ := entry
    rw [membersToJson, Table.get?_cons, ih, Scope.get?, Scope.get?, Table.get?_cons]
    split <;> rfl

/-- Scopes with the same terms, each once and with equal meanings, are equal as JSON. -/
theorem equal_toJson {scope other : Scope} (hscope : scope.terms.Nodup) (hother : other.terms.Nodup)
    (hterms : ∀ term, scope.id? term = other.id? term)
    (hentries : ∀ term entry found, scope.get? term = some entry → other.get? term = some found →
      entry.toJson.equal found.toJson = true) :
    scope.toJson.equal other.toJson = true := by
  have hsame : ∀ term, term ∈ scope.terms ↔ term ∈ other.terms := by
    intro term
    rw [mem_terms_iff, mem_terms_iff, hterms]
  have hlength : scope.length = other.length := by
    have hperm := (List.perm_ext_iff_of_nodup hscope hother).mpr hsame
    simpa [terms, Table.keys] using hperm.length_eq
  rw [toJson, toJson, Json.equal, Bool.and_eq_true]
  refine ⟨?_, ?_⟩
  · simp [membersToJson_eq_map, hlength]
  · rw [Json.equalMembers_iff]
    intro member hmember
    rw [membersToJson_eq_map] at hmember
    obtain ⟨⟨term, entry⟩, hentry, rfl⟩ := List.mem_map.mp hmember
    have hterm : scope.get? term = some entry := Table.get?_of_mem hscope hentry
    have hfound : ∃ found, other.get? term = some found := by
      rw [← Option.isSome_iff_exists]
      have hid := congrArg Option.isSome (hterms term)
      simpa [id?, hterm] using hid.symm
    obtain ⟨found, hfound⟩ := hfound
    refine ⟨found.toJson, ?_, hentries term entry found hterm hfound⟩
    rw [get?_membersToJson, hfound, Option.map_some]

/-- Types with one identifier and with inner scopes that are equal as JSON are equal as JSON. -/
theorem equal_toJson_scoped {id : String} {inner other : Scope}
    (h : inner.toJson.equal other.toJson = true) :
    (Entry.scoped id inner).toJson.equal (Entry.scoped id other).toJson = true := by
  rw [toJson, toJson] at h
  simpa [Entry.toJson, Json.equal, Json.equalMembers, Table.get?] using h

/-- Two contexts of a root say the same but for whether some terms have a scope: the exempt ones in
the scopes of the types that they are exempt for. -/
structure Agrees (root : String) (exempt : String → String → Prop) (context other : Scope) :
    Prop where
  /-- The same types have a scope. -/
  occurs_iff : ∀ type,
    (∃ inner : Scope, inner.Occurs type context) ↔ ∃ inner : Scope, inner.Occurs type other
  /-- The terms of the scopes of a type stand for the same identifiers. -/
  id?_eq : ∀ type scope found, context.StandsFor root type scope →
    other.StandsFor root type found → ∀ term, scope.id? term = found.id? term
  /-- A term has a scope in both scopes of a type or in none, unless it is exempt. -/
  inner?_isSome_eq : ∀ type scope found, context.StandsFor root type scope →
    other.StandsFor root type found → ∀ term, ¬ exempt type term →
      (scope.inner? term).isSome = (found.inner? term).isSome
  /-- Where no term is exempt, the contexts are equal as JSON. -/
  equal : (∀ type term, ¬ exempt type term) → context.toJson.equal other.toJson = true

/-- More terms may be exempt. -/
theorem Agrees.mono {root : String} {exempt more : String → String → Prop} {context other : Scope}
    (h : Agrees root exempt context other) (hmore : ∀ type term, exempt type term → more type term) :
    Agrees root more context other where
  occurs_iff := h.occurs_iff
  id?_eq := h.id?_eq
  inner?_isSome_eq := by
    intro type scope found hscope hfound term hexempt
    exact h.inner?_isSome_eq type scope found hscope hfound term
      fun hterm => hexempt (hmore type term hterm)
  equal := by
    intro hnone
    exact h.equal fun type term hterm => hnone type term (hmore type term hterm)

end Scope

end LinkedSchema
