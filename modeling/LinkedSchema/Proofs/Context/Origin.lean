import LinkedSchema.Proofs.Context.Complete

/-!
# Where meanings come from

Filling a scope invents nothing. Every meaning in a scope stands there from the start or is given by
a claim of the definition: to a field its identifier, and to a type its class identifier, alone or
with a scope that has terms. A scope has each term once.
-/

namespace LinkedSchema

/-- The meanings that a claim can give: to a field its identifier, and to a type with a class
identifier this identifier, alone or with a scope that has terms. -/
inductive Claim.Gives (registry : Registry) : Claim → String → Entry → Prop
  | field {name id : String} : Gives registry (.field name id) name (.iri id)
  | plain {type id : String} : registry.classId? type = some id →
    Gives registry (.type type) type (.iri id)
  | nested {type id : String} {inner : Scope} : registry.classId? type = some id → inner ≠ [] →
    Gives registry (.type type) type (.scoped id inner)

/-- The empty scope has no term twice. -/
theorem Scope.nodup_terms_nil : (Scope.terms []).Nodup :=
  List.nodup_nil

/-- An accepted claim keeps the terms distinct. -/
theorem Scope.nodup_terms_of_claim {scope extended : Scope} {term : String} {entry : Entry}
    (hnodup : scope.terms.Nodup) (h : scope.claim term entry = .ok extended) :
    extended.terms.Nodup := by
  unfold claim at h
  split at h
  · split at h
    · cases h
      exact hnodup
    · cases h
  · next hnone =>
    cases h
    rw [← Table.insert_of_notMem (Table.get?_eq_none_iff.mp hnone)]
    exact Table.nodup_keys_insert hnodup term entry

namespace Context

variable {tree : SchemaTree} {registry : Registry} {vocabulary : Vocabulary} {context : Scope}

/-- The claim of a type gives it its meaning, be its scope empty or not. -/
theorem gives_typeEntry {type id : String} (hid : registry.classId? type = some id)
    (inner : Scope) : Claim.Gives registry (.type type) type (typeEntry id inner) := by
  by_cases hinner : inner = []
  · subst hinner
    exact .plain hid
  · rw [typeEntry_of_ne_nil hinner]
    exact .nested hid hinner

/-- A type stands for its class identifier, be its scope empty or not. -/
theorem id_typeEntry (id : String) (inner : Scope) : (typeEntry id inner).id = id := by
  unfold typeEntry
  split <;> rfl

/-- Claims account for what a scope has beyond its start. -/
structure Traces (registry : Registry) (claims : List Claim) (start scope : Scope) : Prop where
  nodup : scope.terms.Nodup
  origin : ∀ term entry, scope.get? term = some entry →
    start.get? term = some entry ∨ ∃ claim ∈ claims, claim.Gives registry term entry

/-- More claims account for what fewer do. -/
theorem Traces.mono {claims more : List Claim} {start scope : Scope}
    (h : Traces registry claims start scope) (hmore : claims ⊆ more) :
    Traces registry more start scope where
  nodup := h.nodup
  origin := by
    intro term entry hterm
    rcases h.origin term entry hterm with hstart | ⟨claim, hclaim, hgives⟩
    · exact .inl hstart
    · exact .inr ⟨claim, hmore hclaim, hgives⟩

/-- A first claim that is accepted, and then the others. -/
theorem Traces.cons {claim : Claim} {claims : List Claim} {scope middle extended : Scope}
    {term : String} {entry : Entry} (hclaim : scope.claim term entry = .ok middle)
    (hgives : claim.Gives registry term entry) (h : Traces registry claims middle extended) :
    Traces registry (claim :: claims) scope extended where
  nodup := h.nodup
  origin := by
    intro other old hother
    rcases h.origin other old hother with hmiddle | ⟨later, hlater, hgives⟩
    · rw [Scope.get?_of_claim hclaim] at hmiddle
      split at hmiddle
      · next hterm =>
        subst hterm
        cases hmiddle
        exact .inr ⟨claim, List.mem_cons_self, hgives⟩
      · exact .inl hmiddle
    · exact .inr ⟨later, List.mem_cons_of_mem _ hlater, hgives⟩

/-- The claims of its type account for every kept scope. -/
def Traced (tree : SchemaTree) (registry : Registry) (memo : ContextMemo) : Prop :=
  ∀ type scope, memo.scopes.get? type = some scope → ∃ definition,
    tree.get? type = some definition ∧ Traces registry (definition.claims registry) [] scope

/-- An empty memo has no scope to trace. -/
theorem traced_empty : Traced tree registry {} := by
  rintro type scope ⟨⟩

/-- Noting a type keeps the scopes of a memo traced. -/
theorem Traced.note {memo : ContextMemo} (h : Traced tree registry memo) (type : String) :
    Traced tree registry (memo.note tree type) := by
  intro other scope hother
  rw [ContextMemo.scopes_note] at hother
  exact h other scope hother

/-- Keeping a scope for which the claims of its type account leaves all kept scopes accounted
for. -/
theorem Traced.keep {memo : ContextMemo} {type : String} {definition : TypeDefinition}
    {scope : Scope} (h : Traced tree registry memo) (hdefinition : tree.get? type = some definition)
    (hscope : Traces registry (definition.claims registry) [] scope) :
    Traced tree registry (memo.keep type scope) := by
  intro other kept hkept
  rw [ContextMemo.get?_scopes_keep] at hkept
  split at hkept
  · next heq =>
    subst heq
    cases hkept
    exact ⟨definition, hdefinition, hscope⟩
  · exact h other kept hkept

/-- A claim gives the meaning that it has. -/
theorem Assigns.gives {active : List String} {memo : ContextMemo} {claim : Claim} {term : String}
    {entry : Entry} (h : Assigns registry active memo claim term entry) :
    claim.Gives registry term entry := by
  cases h with
  | field => exact .field
  | active hid _ => exact .plain hid
  | kept hid _ _ => exact gives_typeEntry hid _

/-- The claims account for what a run adds to a scope, and likewise for every scope that is kept
meanwhile. -/
theorem traces_of_run {active : List String} {owner : String} {claims : List Claim}
    {scope extended : Scope} {memo grown : ContextMemo} {starts : List Start}
    {outcome : Except (Interruption ContextError ContextMemo) (Scope × ContextMemo)}
    (h : Run tree registry active owner claims scope memo starts outcome)
    (hok : outcome = .ok (extended, grown)) (hmemo : Traced tree registry memo)
    (hscope : scope.terms.Nodup) :
    Traced tree registry grown ∧ Traces registry claims scope extended := by
  induction h generalizing extended grown with
  | done =>
    cases hok
    exact ⟨hmemo, hscope, fun _ _ h => .inl h⟩
  | take hassigns hclaim _ ih =>
    have hterm := scope_claim_of_claim hclaim
    obtain ⟨hgrown, hrest⟩ := ih hok hmemo (Scope.nodup_terms_of_claim hscope hterm)
    exact ⟨hgrown, hrest.cons hterm hassigns.gives⟩
  | refuse => cases hok
  | pass _ _ ih =>
    obtain ⟨hgrown, hrest⟩ := ih hok (hmemo.note _) hscope
    exact ⟨hgrown, hrest.mono (List.subset_cons_self _ _)⟩
  | undefined => cases hok
  | abandon => cases hok
  | build _ hdefinition _ _ ihinner ih =>
    obtain ⟨hwithin, hinner⟩ := ihinner rfl hmemo Scope.nodup_terms_nil
    exact ih hok (hwithin.keep hdefinition hinner) hscope

/-- The claims account for what filling adds to a scope, and likewise for every scope that is kept
meanwhile. -/
theorem traces_of_fill {active : List String} {owner : String} {claims : List Claim}
    {scope extended : Scope} {memo grown : ContextMemo}
    (h : fill tree registry active owner claims scope memo = .ok (extended, grown))
    (hmemo : Traced tree registry memo) (hscope : scope.terms.Nodup) :
    Traced tree registry grown ∧ Traces registry claims scope extended := by
  obtain ⟨starts, hrun⟩ := exists_run tree registry active owner claims scope memo
  exact traces_of_run hrun h hmemo hscope

end Context

end LinkedSchema
