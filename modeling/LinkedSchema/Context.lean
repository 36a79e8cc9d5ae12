import LinkedSchema.Interruption
import LinkedSchema.Remaining
import LinkedSchema.Scope
import LinkedSchema.Text.Blank
import LinkedSchema.Tree

/-!
# Contexts of schema trees

The context of a tree gives every field and every type of it the identifier that is registered for
it. The fields of a type have their meanings in the scope of that type, so that fields of one name
in two types do not meet. The scope of a type is built once and stands wherever the type is
referred to, except inside itself, where the type is a plain term. A type without a class
identifier has no scope.
-/

namespace LinkedSchema

/-- The base IRI of a context and the short name that stands for it. -/
structure Vocabulary where
  iri : String := "https://w3id.org/cw/"
  shortName : String := "cw"
  deriving DecidableEq

/-- The vocabulary set by an environment. A part that is absent or blank has its default. -/
def Vocabulary.ofEnvironment (iri? shortName? : Option String) : Vocabulary where
  iri := (iri?.filter (!Text.isBlankText ·)).getD ({} : Vocabulary).iri
  shortName := (shortName?.filter (!Text.isBlankText ·)).getD ({} : Vocabulary).shortName

/-- Why a tree has no context. -/
inductive ContextError
  | termCollision (scope term : String)
  | missingDefinition (name : String)
  deriving DecidableEq

/-- The message of a refused context. -/
def ContextError.message : ContextError → String
  | .termCollision scope term =>
    "term " ++ Text.quoted term ++ " in the scope of " ++ scope ++
      " maps to two different identifiers"
  | .missingDefinition name =>
    "type " ++ Text.quoted name ++ " is referenced but has no definition in the schema tree"

/-- A term that a definition claims: a field with its identifier, or a type referred to. -/
inductive Claim
  | field (name id : String)
  | type (name : String)
  deriving DecidableEq

/-- The terms that a definition claims, field by field: the field itself if it has an identifier,
then the types it refers to. -/
def TypeDefinition.claims (registry : Registry) (definition : TypeDefinition) : List Claim :=
  definition.fields.flatMap fun field =>
    ((registry.fieldId? definition.name field.name).map (Claim.field field.name)).toList ++
      field.kind.referenced.map Claim.type

/-- What the building of a context keeps: the finished scopes of types, and the types that have a
definition but no class identifier, in the order in which they were met. -/
structure ContextMemo where
  scopes : Directory Scope := ∅
  unscoped : List String := []
  deriving DecidableEq

namespace ContextMemo

/-- Keeps the scope of a type. -/
def keep (memo : ContextMemo) (type : String) (scope : Scope) : ContextMemo :=
  { memo with scopes := memo.scopes.insert type scope }

/-- Notes a type without a class identifier, once and only if it has a definition. -/
def note (memo : ContextMemo) (tree : SchemaTree) (type : String) : ContextMemo :=
  if memo.unscoped.contains type || (tree.get? type).isNone then memo
  else { memo with unscoped := memo.unscoped ++ [type] }

end ContextMemo

namespace Context

/-- Claims a meaning in the scope of a type. -/
def claim (memo : ContextMemo) (owner : String) (scope : Scope) (term : String) (entry : Entry) :
    Except (Interruption ContextError ContextMemo) Scope :=
  (scope.claim term entry).mapError fun _ => ⟨.termCollision owner term, memo⟩

/-- The meaning of a type with a scope: a plain identifier where the scope is empty. -/
def typeEntry (id : String) (scope : Scope) : Entry :=
  if scope.isEmpty then .iri id else .scoped id scope

/-- The number of definitions whose scope is not being built. -/
def idle (tree : SchemaTree) (active : List String) : Nat :=
  remaining tree.names active

/-- Starting on the scope of a definition leaves fewer that are not being built. -/
theorem idle_cons_lt {tree : SchemaTree} {active : List String} {type : String}
    {definition : TypeDefinition} (hactive : type ∉ active)
    (hdefinition : tree.get? type = some definition) :
    idle tree (type :: active) < idle tree active :=
  remaining_cons_lt (SchemaTree.mem_names_of_get? hdefinition) hactive

/-- Puts the claims of a definition into a scope, one after another. The active types are those
whose scopes are being built, the innermost first. -/
def fill (tree : SchemaTree) (registry : Registry) (active : List String) (owner : String)
    (claims : List Claim) (scope : Scope) (memo : ContextMemo) :
    Except (Interruption ContextError ContextMemo) (Scope × ContextMemo) :=
  match claims with
  | [] => .ok (scope, memo)
  | .field name id :: claims =>
    match claim memo owner scope name (.iri id) with
    | .error interruption => .error interruption
    | .ok scope => fill tree registry active owner claims scope memo
  | .type type :: claims =>
    match registry.classId? type with
    | none => fill tree registry active owner claims scope (memo.note tree type)
    | some id =>
      if _hactive : type ∈ active then
        match claim memo owner scope type (.iri id) with
        | .error interruption => .error interruption
        | .ok scope => fill tree registry active owner claims scope memo
      else
        match memo.scopes.get? type with
        | some inner =>
          match claim memo owner scope type (typeEntry id inner) with
          | .error interruption => .error interruption
          | .ok scope => fill tree registry active owner claims scope memo
        | none =>
          match _hdefinition : tree.get? type with
          | none => .error ⟨.missingDefinition type, memo⟩
          | some definition =>
            match fill tree registry (type :: active) definition.name (definition.claims registry)
                [] memo with
            | .error interruption => .error interruption
            | .ok (inner, memo) =>
              let memo := memo.keep type inner
              match claim memo owner scope type (typeEntry id inner) with
              | .error interruption => .error interruption
              | .ok scope => fill tree registry active owner claims scope memo
  termination_by (idle tree active, claims.length)
  decreasing_by
    · exact Prod.Lex.right _ (by simp)
    · exact Prod.Lex.right _ (by simp)
    · exact Prod.Lex.right _ (by simp)
    · exact Prod.Lex.right _ (by simp)
    · exact Prod.Lex.left _ _ (idle_cons_lt _hactive _hdefinition)
    · exact Prod.Lex.right _ (by simp)

/-- The scope of the root with what the vocabulary and the class of the root claim in it. -/
def rootScope (registry : Registry) (vocabulary : Vocabulary) (root : String) :
    Except (Interruption ContextError ContextMemo) Scope := do
  let scope ← claim {} root [] "@vocab" (.iri vocabulary.iri)
  let scope ← claim {} root scope vocabulary.shortName (.iri vocabulary.iri)
  match registry.classId? root with
  | none => return scope
  | some id => claim {} root scope root (.iri id)

/-- The context of a tree, with the memo of its building. -/
def buildWithMemo (tree : SchemaTree) (registry : Registry) (vocabulary : Vocabulary) :
    Except (Interruption ContextError ContextMemo) (Scope × ContextMemo) := do
  let scope ← rootScope registry vocabulary tree.root.name
  fill tree registry [tree.root.name] tree.root.name (tree.root.claims registry) scope {}

/-- The context of a tree. -/
def build (tree : SchemaTree) (registry : Registry) (vocabulary : Vocabulary) :
    Except ContextError Scope :=
  match buildWithMemo tree registry vocabulary with
  | .error interruption => .error interruption.cause
  | .ok (scope, _) => .ok scope

end Context

end LinkedSchema
