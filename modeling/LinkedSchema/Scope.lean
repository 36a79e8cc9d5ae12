import LinkedSchema.Json.Basic

/-!
# Scopes of a context

A scope gives each of its terms a meaning: an identifier, and for a type also the scope of the
terms inside it. Terms stand in the order in which they were claimed, and a term keeps the first
meaning that was claimed for it.
-/

namespace LinkedSchema

/-- The meaning of a term. -/
inductive Entry
  | iri (id : String)
  | scoped (id : String) (terms : List (String × Entry))

namespace Entry

instance : Inhabited Entry := ⟨.iri ""⟩

/-- The identifier that a term stands for. -/
def id : Entry → String
  | .iri id => id
  | .scoped id _ => id

mutual

/-- Decides whether two meanings are the same, inner terms compared in order. -/
def decEq : (a b : Entry) → Decidable (a = b)
  | .iri a, .iri b => decidable_of_iff (a = b) (by simp)
  | .scoped a terms, .scoped b others =>
    match (inferInstance : Decidable (a = b)), decEqTerms terms others with
    | isTrue hid, isTrue hterms => isTrue (hid ▸ hterms ▸ rfl)
    | isFalse hid, _ => isFalse fun heq => hid (by simpa using (Entry.scoped.inj heq).1)
    | _, isFalse hterms => isFalse fun heq => hterms (by simpa using (Entry.scoped.inj heq).2)
  | .iri _, .scoped _ _ => isFalse (by simp)
  | .scoped _ _, .iri _ => isFalse (by simp)

/-- Decides whether two scopes are the same. -/
def decEqTerms : (terms others : List (String × Entry)) → Decidable (terms = others)
  | [], [] => isTrue rfl
  | [], _ :: _ => isFalse (by simp)
  | _ :: _, [] => isFalse (by simp)
  | (term, entry) :: terms, (term', other) :: others =>
    match (inferInstance : Decidable (term = term')), decEq entry other,
        decEqTerms terms others with
    | isTrue ht, isTrue h, isTrue hs => isTrue (ht ▸ h ▸ hs ▸ rfl)
    | isFalse ht, _, _ => isFalse fun heq => ht (Prod.mk.inj (List.cons.inj heq).1).1
    | _, isFalse h, _ => isFalse fun heq => h (Prod.mk.inj (List.cons.inj heq).1).2
    | _, _, isFalse hs => isFalse fun heq => hs (List.cons.inj heq).2

end

instance : DecidableEq Entry := decEq

end Entry

/-- Terms with their meanings in the order in which they were claimed. -/
abbrev Scope := List (String × Entry)

namespace Scope

/-- The meaning of a term. -/
def get? (scope : Scope) (term : String) : Option Entry :=
  Table.get? scope term

/-- The identifier that a term stands for. -/
def id? (scope : Scope) (term : String) : Option String :=
  (scope.get? term).map Entry.id

/-- The scope inside a term, if it has one. -/
def inner? (scope : Scope) (term : String) : Option Scope :=
  match scope.get? term with
  | some (.scoped _ terms) => some terms
  | _ => none

/-- The terms in order. -/
def terms (scope : Scope) : List String :=
  Table.keys scope

/-- Claims a meaning for a term. Claiming the meaning that the term has changes nothing; claiming
another is refused with the meaning that the term has. -/
def claim (scope : Scope) (term : String) (entry : Entry) : Except Entry Scope :=
  match scope.get? term with
  | some existing => if existing = entry then .ok scope else .error existing
  | none => .ok (scope ++ [(term, entry)])

end Scope

mutual

/-- A meaning as JSON: the identifier alone, or the identifier with the inner scope. -/
def Entry.toJson : Entry → Json
  | .iri id => .str id
  | .scoped id terms => .obj [("@id", .str id), ("@context", .obj (Scope.membersToJson terms))]

/-- The terms of a scope as members of an object. -/
def Scope.membersToJson : List (String × Entry) → List (String × Json)
  | [] => []
  | (term, entry) :: terms => (term, Entry.toJson entry) :: Scope.membersToJson terms

end

/-- A scope as JSON. -/
def Scope.toJson (scope : Scope) : Json :=
  .obj (Scope.membersToJson scope)

end LinkedSchema
