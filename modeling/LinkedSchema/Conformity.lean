import LinkedSchema.Json.Printer
import LinkedSchema.Tree

/-!
# Conformity of values

A value conforms to a kind of a tree if it has the form that the kind declares, at every depth.
What the check gives is the value with the defaults of absent fields filled in. Of a union the
first member to which the value conforms decides.
-/

namespace LinkedSchema

/-- One step from a value to a part of it. -/
inductive PathStep
  | field (name : String)
  | index (position : Nat)
  deriving DecidableEq

/-- The step as messages write it. -/
def PathStep.text : PathStep → String
  | .field name => "." ++ name
  | .index position => "[" ++ String.ofList (Nat.toDigits 10 position) ++ "]"

/-- A path from the checked value as messages write it. -/
def pathText (path : List PathStep) : String :=
  "$" ++ String.join (path.map PathStep.text)

/-- Why a value does not conform. -/
inductive MisfitCause
  | notAnObject (type : String) (found : Shape)
  | unknownField (field : String)
  | missingField (field : String)
  | shapeMismatch (expected : Kind) (found : Shape)
  | missingDefinition (name : String)
  deriving DecidableEq

/-- Where a value does not conform, and why. -/
structure Misfit where
  path : List PathStep := []
  cause : MisfitCause
  deriving DecidableEq

namespace Kind

mutual

/-- The words for a kind. -/
def describe : Kind → String
  | .scalar type => type.name
  | .enumeration literals => "one of " ++ (Json.arr literals).compact
  | .reference name => "object " ++ name
  | .collection item => "array of " ++ describe item
  | .union members => describeMembers members
  | .nullable inner => describe inner ++ " | null"

/-- The words for the members of a union, with bars between them. -/
def describeMembers : List Kind → String
  | [] => ""
  | [kind] => describe kind
  | kind :: kinds => describe kind ++ " | " ++ describeMembers kinds

end

end Kind

namespace Misfit

/-- The misfit of a part as a misfit of the whole. -/
def under (step : PathStep) (misfit : Misfit) : Misfit :=
  { misfit with path := step :: misfit.path }

/-- The message of a misfit. -/
def message (misfit : Misfit) : String :=
  match misfit.cause with
  | .notAnObject type found =>
    pathText misfit.path ++ ": expected an object of type " ++ type ++ ", got " ++ found.name
  | .unknownField field => pathText misfit.path ++ ": unknown field " ++ Text.quoted field
  | .missingField field => pathText misfit.path ++ ": missing required field " ++ Text.quoted field
  | .shapeMismatch expected found =>
    pathText misfit.path ++ ": expected " ++ expected.describe ++ ", got " ++ found.name
  | .missingDefinition name =>
    "type " ++ Text.quoted name ++ " has no definition in the schema tree"

end Misfit

namespace SchemaTree

/-- The refusal of a value that has not the form of a kind. -/
def mismatch (kind : Kind) (value : Json) : Misfit :=
  { cause := .shapeMismatch kind value.shape }

/-- The first member whose key is no field of a definition. -/
def unknownKey? (definition : TypeDefinition) (members : List (String × Json)) : Option String :=
  (members.find? fun member => (definition.field? member.1).isNone).map Prod.fst

mutual

/-- Checks a value against a kind and fills in defaults. -/
def check (tree : SchemaTree) (kind : Kind) (value : Json) : Except Misfit Json :=
  match kind with
  | .scalar type => if type.accepts value then .ok value else .error (mismatch kind value)
  | .enumeration literals =>
    if literals.any (·.equal value) then .ok value else .error (mismatch kind value)
  | .reference name =>
    match tree.get? name with
    | none => .error { cause := .missingDefinition name }
    | some definition => (checkObject tree definition value).map .obj
  | .collection item =>
    match value with
    | .arr items => (checkItems tree item 0 items).map .arr
    | value => .error (mismatch kind value)
  | .union members =>
    match firstFit tree members value with
    | some checked => .ok checked
    | none => .error (mismatch kind value)
  | .nullable inner => if value = .null then .ok .null else check tree inner value
  termination_by (2 * value.size, kind.size)
  decreasing_by
    · exact Prod.Lex.right _ (by simp [Kind.size])
    · exact Prod.Lex.left _ _ (by simp only [Json.size]; omega)
    · exact Prod.Lex.right _ (by simp [Kind.size])
    · exact Prod.Lex.right _ (by simp [Kind.size])

/-- Checks a value against a definition and fills in defaults. -/
def checkObject (tree : SchemaTree) (definition : TypeDefinition) (value : Json) :
    Except Misfit (Table Json) :=
  match value with
  | .obj members =>
    match unknownKey? definition members with
    | some key => .error { cause := .unknownField key }
    | none => (checkFields tree definition.fields members).map Table.ofList
  | value => .error { cause := .notAnObject definition.name value.shape }
  termination_by (2 * value.size, 0)
  decreasing_by
    exact Prod.Lex.left _ _ (by simp only [Json.size]; omega)

/-- Checks the members of an object against fields in the order of declaration. An absent field
has its default. -/
def checkFields (tree : SchemaTree) (fields : List Property) (members : List (String × Json)) :
    Except Misfit (List (String × Json)) :=
  match fields with
  | [] => .ok []
  | field :: fields => do
    let checked ← (match _hvalue : Table.get? members field.name with
      | some value => (check tree field.kind value).mapError (Misfit.under (.field field.name))
      | none => field.default.elim (.error { cause := .missingField field.name }) .ok)
    return (field.name, checked) :: (← checkFields tree fields members)
  termination_by (2 * Json.sizeMembers members + 1, fields.length)
  decreasing_by
    · exact Prod.Lex.left _ _ (by have := Json.size_le_of_get? _hvalue; omega)
    · exact Prod.Lex.right _ (by simp)

/-- Checks items from some position on against the same kind. -/
def checkItems (tree : SchemaTree) (kind : Kind) (position : Nat) (items : List Json) :
    Except Misfit (List Json) :=
  match items with
  | [] => .ok []
  | item :: items => do
    let checked ← (check tree kind item).mapError (Misfit.under (.index position))
    return checked :: (← checkItems tree kind (position + 1) items)
  termination_by (2 * Json.sizeItems items + 1, 0)
  decreasing_by
    · exact Prod.Lex.left _ _ (by simp only [Json.sizeItems]; omega)
    · exact Prod.Lex.left _ _ (by have := item.size_pos; simp only [Json.sizeItems]; omega)

/-- The value as the first member takes it to which it conforms. -/
def firstFit (tree : SchemaTree) (members : List Kind) (value : Json) : Option Json :=
  match members with
  | [] => none
  | kind :: kinds =>
    match check tree kind value with
    | .ok checked => some checked
    | .error _ => firstFit tree kinds value
  termination_by (2 * value.size, Kind.sizeMembers members)
  decreasing_by
    · exact Prod.Lex.right _ (by simp only [Kind.sizeMembers]; omega)
    · exact Prod.Lex.right _ (by simp only [Kind.sizeMembers]; omega)

end

end SchemaTree

end LinkedSchema
