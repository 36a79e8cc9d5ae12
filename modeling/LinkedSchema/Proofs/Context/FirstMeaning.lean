import LinkedSchema.Proofs.Context.Agreement
import Mathlib.Data.List.Induction

/-!
# A term keeps its first meaning

Whatever is claimed in a scope, in whatever order, a claim does one of two things: it adds its term
at the end where the term is new, and it changes nothing where the term is there, be it accepted or
refused. So after claims in turn the terms stand in the order of their first claims, each once and
with the meaning of its first claim.
-/

namespace LinkedSchema

namespace Table

variable {α : Type}

/-- What is found in two tables in turn is found in the first, or else in the second. -/
theorem get?_append (table others : Table α) (key : String) :
    get? (table ++ others) key = (get? table key).or (get? others key) := by
  induction table with
  | nil => simp
  | cons entry rest ih =>
    obtain ⟨name, value⟩ := entry
    rw [List.cons_append, get?_cons, get?_cons, ih]
    split <;> rfl

/-- The value under the key of an entry is that of the entry, unless an earlier one has the key. -/
theorem get?_of_getElem? {table : Table α} {i : Nat} {key : String} {value : α}
    (h : table[i]? = some (key, value)) :
    get? table key = (get? (table.take i) key).or (some value) := by
  have hnext : table.take (i + 1) = table.take i ++ [(key, value)] := by
    rw [List.take_add_one, h, Option.toList_some]
  have hself : get? [(key, value)] key = some value := if_pos rfl
  calc get? table key
      = get? (table.take (i + 1) ++ table.drop (i + 1)) key := by rw [List.take_append_drop]
    _ = (get? (table.take i) key).or (some value) := by
        rw [hnext, get?_append, get?_append, hself, Option.or_assoc, Option.some_or]

/-- The key of one more entry is the last of the different keys, if it was not among them. -/
theorem eraseDups_keys_concat (table : Table α) (entry : String × α) :
    (keys (table ++ [entry])).eraseDups =
      if entry.1 ∈ keys table then (keys table).eraseDups
      else (keys table).eraseDups ++ [entry.1] := by
  have hkeys : keys (table ++ [entry]) = keys table ++ [entry.1] := by simp [keys]
  rw [hkeys, List.eraseDups_append]
  by_cases hold : entry.1 ∈ keys table
  · have hnone : [entry.1].removeAll (keys table) = [] := by simp [List.removeAll, hold]
    rw [if_pos hold, hnone, List.eraseDups_nil, List.append_nil]
  · have hnew : [entry.1].removeAll (keys table) = [entry.1] := by simp [List.removeAll, hold]
    rw [if_neg hold, hnew]
    rfl

end Table

namespace Scope

variable {scope : Scope} {claimed : List (String × Entry)} {term : String} {entry existing : Entry}

/-- A claim is accepted where the term is new or has the claimed meaning. -/
theorem exists_claim_eq_ok_iff :
    (∃ extended, scope.claim term entry = .ok extended) ↔
      term ∉ scope.terms ∨ scope.get? term = some entry := by
  rw [terms, ← Table.get?_eq_none_iff, ← get?, claim]
  cases scope.get? term with
  | none => simp
  | some found => by_cases hfound : found = entry <;> simp [hfound]

/-- A claim is refused only with the meaning that the term has. -/
theorem get?_eq_of_claim_error (h : scope.claim term entry = .error existing) :
    scope.get? term = some existing := by
  unfold claim at h
  split at h
  · next found hfound =>
    split at h
    · cases h
    · obtain rfl : found = existing := Except.error.inj h
      exact hfound
  · cases h

/-- The scope after a claim. A refused claim leaves it as it is. -/
def after (scope : Scope) (claimed : String × Entry) : Scope :=
  match scope.claim claimed.1 claimed.2 with
  | .ok extended => extended
  | .error _ => scope

/-- The scope that started empty, after claims in turn. -/
def ofList (claimed : List (String × Entry)) : Scope :=
  claimed.foldl after []

/-- One more claim is made in the scope of the claims before it. -/
theorem ofList_concat (claimed : List (String × Entry)) (next : String × Entry) :
    ofList (claimed ++ [next]) = (ofList claimed).after next := by
  simp [ofList]

/-- A claim adds its term at the end where it is new, and changes nothing where it is not. -/
theorem after_eq (scope : Scope) (next : String × Entry) :
    scope.after next = if next.1 ∈ scope.terms then scope else scope ++ [next] := by
  unfold after claim
  cases hget : scope.get? next.1 with
  | none =>
    have hnew : next.1 ∉ scope.terms := Table.get?_eq_none_iff.mp hget
    rw [if_neg hnew]
  | some existing =>
    have hold : next.1 ∈ scope.terms := Table.mem_keys_iff.mpr ⟨existing, hget⟩
    rw [if_pos hold]
    by_cases hsame : existing = next.2 <;> simp [hsame]

/-- After a claim a term has the meaning that it had, or else the claimed one. -/
theorem get?_after (scope : Scope) (next : String × Entry) (term : String) :
    (scope.after next).get? term = (scope.get? term).or (Table.get? [next] term) := by
  rw [after_eq]
  split
  · next hold =>
    obtain ⟨existing, hexisting⟩ := Table.mem_keys_iff.mp hold
    by_cases hterm : next.1 = term
    · subst hterm
      rw [get?, hexisting, Option.some_or]
    · have hnone : Table.get? [next] term = none := if_neg hterm
      rw [hnone, Option.or_none]
  · exact Table.get?_append scope [next] term

/-- A claim keeps the terms distinct. -/
theorem nodup_terms_after (h : scope.terms.Nodup) (next : String × Entry) :
    (scope.after next).terms.Nodup := by
  rw [after_eq]
  split
  · exact h
  · next hnew =>
    have hinsert := Table.nodup_keys_insert h next.1 next.2
    rwa [Table.insert_of_notMem hnew] at hinsert

/-- A scope has each claimed term once, in the order of the first claims and with their meanings. -/
structure Records (claimed : List (String × Entry)) (scope : Scope) : Prop where
  nodup : scope.terms.Nodup
  terms_eq : scope.terms = (Table.keys claimed).eraseDups
  get?_eq : ∀ term, scope.get? term = Table.get? claimed term

/-- The empty scope records no claims. -/
theorem Records.nil : Records [] [] where
  nodup := List.nodup_nil
  terms_eq := rfl
  get?_eq _ := rfl

/-- One more claim is recorded too. -/
theorem Records.after (h : Records claimed scope) (next : String × Entry) :
    Records (claimed ++ [next]) (scope.after next) where
  nodup := nodup_terms_after h.nodup next
  terms_eq := by
    have hmem : next.1 ∈ scope.terms ↔ next.1 ∈ Table.keys claimed := by
      rw [h.terms_eq, List.mem_eraseDups]
    rw [Table.eraseDups_keys_concat, ← h.terms_eq, after_eq]
    by_cases hold : next.1 ∈ scope.terms
    · rw [if_pos hold, if_pos (hmem.mp hold)]
    · rw [if_neg hold, if_neg (mt hmem.mpr hold)]
      simp [terms, Table.keys]
  get?_eq := by
    intro term
    rw [get?_after, h.get?_eq, Table.get?_append]

/-- A scope records the claims that were made in it. -/
theorem records_ofList (claimed : List (String × Entry)) : Records claimed (ofList claimed) := by
  -- The last claim meets the scope that all the others have left, so it is split off at the end.
  induction claimed using List.reverseRecOn with
  | nil => exact .nil
  | append_singleton claimed next ih =>
    rw [ofList_concat]
    exact ih.after next

/-- The members of a scope as JSON have its terms as their keys, in order. -/
theorem keys_membersToJson (scope : Scope) : Table.keys (membersToJson scope) = scope.terms := by
  simp [membersToJson_eq_map, terms, Table.keys]

/-- After claims in turn in an empty scope, the terms are distinct and stand in the order of their
first claims, and each has the meaning of its first claim. A claim among them is accepted exactly if
its term is new or has this meaning, inner scopes compared in order, and a refused one is answered
with this meaning and leaves the scope as it is. The scope as JSON is an object with the same terms
in the same order. -/
theorem keeps_first_meanings (claimed : List (String × Entry)) :
    (ofList claimed).terms.Nodup ∧
      (ofList claimed).terms = (Table.keys claimed).eraseDups ∧
      (∀ term, (ofList claimed).get? term = Table.get? claimed term) ∧
      (∀ i term entry, claimed[i]? = some (term, entry) →
        ((∃ extended, (ofList (claimed.take i)).claim term entry = .ok extended) ↔
          term ∉ Table.keys (claimed.take i) ∨ Table.get? claimed term = some entry) ∧
        ∀ existing, (ofList (claimed.take i)).claim term entry = .error existing →
          Table.get? claimed term = some existing ∧
            ofList (claimed.take (i + 1)) = ofList (claimed.take i)) ∧
      ∃ members, (ofList claimed).toJson = .obj members ∧
        Table.keys members = (Table.keys claimed).eraseDups ∧
        ∀ term, Table.get? members term = (Table.get? claimed term).map Entry.toJson := by
  have hrecords := records_ofList claimed
  refine ⟨hrecords.nodup, hrecords.terms_eq, hrecords.get?_eq, ?_, ?_⟩
  · intro i term entry hi
    have hbefore := records_ofList (claimed.take i)
    have hfirst := Table.get?_of_getElem? hi
    refine ⟨?_, ?_⟩
    · rw [exists_claim_eq_ok_iff, hbefore.terms_eq, List.mem_eraseDups, hbefore.get?_eq, hfirst]
      cases hget : Table.get? (claimed.take i) term with
      | none => simp [Table.get?_eq_none_iff.mp hget]
      | some found => rw [Option.some_or]
    · intro existing hrefused
      have hheld := get?_eq_of_claim_error hrefused
      have hnext : claimed.take (i + 1) = claimed.take i ++ [(term, entry)] := by
        rw [List.take_add_one, hi, Option.toList_some]
      refine ⟨?_, ?_⟩
      · rw [hfirst, ← hbefore.get?_eq, hheld, Option.some_or]
      · rw [hnext, ofList_concat, Scope.after, hrefused]
  · refine ⟨membersToJson (ofList claimed), rfl, ?_, ?_⟩
    · rw [keys_membersToJson, hrecords.terms_eq]
    · intro term
      rw [get?_membersToJson, hrecords.get?_eq]

/-- A name is claimed twice alike, and a task once more with its inner terms in another order. -/
def taskTerms : List (String × Entry) :=
  [("name", .iri "cw:name"),
    ("Task", .scoped "cw:Task" [("name", .iri "cw:title"), ("effort", .iri "cw:effort")]),
    ("name", .iri "cw:name"),
    ("Task", .scoped "cw:Task" [("effort", .iri "cw:effort"), ("name", .iri "cw:title")])]

/-- The name keeps its meaning when it is claimed alike, and the task keeps its when it is claimed
with other inner terms first. -/
theorem keeps_first_meanings_taskTerms :
    (ofList taskTerms).terms = ["name", "Task"] ∧
      (∃ extended, (ofList (taskTerms.take 2)).claim "name" (.iri "cw:name") = .ok extended) ∧
      (ofList (taskTerms.take 3)).claim "Task"
          (.scoped "cw:Task" [("effort", .iri "cw:effort"), ("name", .iri "cw:title")]) =
        .error (.scoped "cw:Task" [("name", .iri "cw:title"), ("effort", .iri "cw:effort")]) ∧
      Table.get? taskTerms "Task" =
        some (.scoped "cw:Task" [("name", .iri "cw:title"), ("effort", .iri "cw:effort")]) ∧
      ofList (taskTerms.take 4) = ofList (taskTerms.take 3) := by
  obtain ⟨-, hterms, -, hclaims, -⟩ := keeps_first_meanings taskTerms
  have hrefused : (ofList (taskTerms.take 3)).claim "Task"
      (.scoped "cw:Task" [("effort", .iri "cw:effort"), ("name", .iri "cw:title")]) =
        .error (.scoped "cw:Task" [("name", .iri "cw:title"), ("effort", .iri "cw:effort")]) := by
    decide
  obtain ⟨hfirst, hsame⟩ := (hclaims 3 _ _ rfl).2 _ hrefused
  exact ⟨hterms.trans (by decide), (hclaims 2 _ _ rfl).1.mpr (.inr (by decide)), hrefused, hfirst,
    hsame⟩

end Scope

end LinkedSchema
