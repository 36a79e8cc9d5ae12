import LinkedSchema.Json.Basic

/-!
# Kinds of fields

A field declares which values it takes: a scalar type, a closed list of literals, a reference to a
model, or a collection, union or nullable variant of other kinds. A reference stands directly in a
kind unless a collection, a nullable or a union that admits null lies around it.
-/

namespace LinkedSchema

/-- The types of values that are written without reference to a model. -/
inductive ScalarType
  | string
  | integer
  | number
  | boolean
  | null
  /-- Every JSON value. -/
  | any
  deriving DecidableEq

/-- The values that a field takes. -/
inductive Kind
  | scalar (type : ScalarType)
  | enumeration (literals : List Json)
  | reference (name : String)
  | collection (item : Kind)
  | union (members : List Kind)
  | nullable (inner : Kind)

namespace ScalarType

/-- The scalar types in the order of their listing in messages. -/
def all : List ScalarType :=
  [.string, .integer, .number, .boolean, .null, .any]

/-- The name of a scalar type. -/
def name : ScalarType → String
  | .string => "string"
  | .integer => "integer"
  | .number => "number"
  | .boolean => "boolean"
  | .null => "null"
  | .any => "any"

/-- The type keyword of a schema; the type of all values has none. -/
def keyword? : ScalarType → Option String
  | .any => none
  | type => some type.name

/-- The scalar type of a name. -/
def ofName? (name : String) : Option ScalarType :=
  all.find? (·.name = name)

/-- Whether a value belongs to the type. A whole number is also a number. -/
def accepts : ScalarType → Json → Bool
  | .string, .str _ => true
  | .integer, .num (.int _) => true
  | .number, .num _ => true
  | .boolean, .bool _ => true
  | .null, .null => true
  | .any, _ => true
  | _, _ => false

/-- A scalar type is found again under its name. -/
theorem ofName?_name (type : ScalarType) : ofName? type.name = some type := by
  cases type <;> decide

end ScalarType

namespace Kind

/-- The kind that takes null alone. -/
def null : Kind :=
  .scalar .null

mutual

/-- Whether null is among the values. -/
def isNullable : Kind → Bool
  | .scalar type => type = .null || type = .any
  | .enumeration literals => literals.any (· = .null)
  | .reference _ => false
  | .collection _ => false
  | .union members => anyNullable members
  | .nullable _ => true

/-- Whether null is among the values of some member. -/
def anyNullable : List Kind → Bool
  | [] => false
  | kind :: kinds => isNullable kind || anyNullable kinds

end

mutual

/-- The references of a kind in the order of writing, each with whether it stands behind an
indirection. The flag says whether an indirection already lies around the kind. -/
def edges (indirect : Bool) : Kind → List (String × Bool)
  | .scalar _ => []
  | .enumeration _ => []
  | .reference name => [(name, indirect)]
  | .collection item => edges true item
  | .union members => edgesOfMembers (indirect || anyNullable members) members
  | .nullable inner => edges true inner

/-- The references of the members of a union. -/
def edgesOfMembers (indirect : Bool) : List Kind → List (String × Bool)
  | [] => []
  | kind :: kinds => edges indirect kind ++ edgesOfMembers indirect kinds

end

/-- The names that a kind refers to, each once, in the order of first occurrence. -/
def referenced (kind : Kind) : List String :=
  ((kind.edges false).map Prod.fst).eraseDups

mutual

/-- Equality of kinds with literals compared as JSON values. -/
def equal : Kind → Kind → Bool
  | .scalar a, .scalar b => a = b
  | .enumeration literals, .enumeration others => Json.equalItems literals others
  | .reference a, .reference b => a = b
  | .collection a, .collection b => equal a b
  | .union members, .union others => equalMembers members others
  | .nullable a, .nullable b => equal a b
  | _, _ => false

/-- Equality of two lists of kinds, one by one. -/
def equalMembers : List Kind → List Kind → Bool
  | [], [] => true
  | kind :: kinds, other :: others => equal kind other && equalMembers kinds others
  | _, _ => false

end

mutual

/-- The number of kinds that a kind is made of, itself included. -/
def size : Kind → Nat
  | .scalar _ => 1
  | .enumeration _ => 1
  | .reference _ => 1
  | .collection item => 1 + size item
  | .union members => 1 + sizeMembers members
  | .nullable inner => 1 + size inner

/-- The number of kinds in a list, those inside them included. -/
def sizeMembers : List Kind → Nat
  | [] => 0
  | kind :: kinds => 1 + size kind + sizeMembers kinds

end

mutual

/-- Decides whether two kinds are written alike. -/
def decEq : (a b : Kind) → Decidable (a = b)
  | .scalar a, .scalar b => decidable_of_iff (a = b) (by simp)
  | .enumeration literals, .enumeration others => decidable_of_iff (literals = others) (by simp)
  | .reference a, .reference b => decidable_of_iff (a = b) (by simp)
  | .collection a, .collection b =>
    match decEq a b with
    | isTrue h => isTrue (h ▸ rfl)
    | isFalse h => isFalse fun heq => h (by simpa using heq)
  | .union members, .union others =>
    match decEqMembers members others with
    | isTrue h => isTrue (h ▸ rfl)
    | isFalse h => isFalse fun heq => h (by simpa using heq)
  | .nullable a, .nullable b =>
    match decEq a b with
    | isTrue h => isTrue (h ▸ rfl)
    | isFalse h => isFalse fun heq => h (by simpa using heq)
  | .scalar _, .enumeration _ | .scalar _, .reference _ | .scalar _, .collection _
  | .scalar _, .union _ | .scalar _, .nullable _
  | .enumeration _, .scalar _ | .enumeration _, .reference _ | .enumeration _, .collection _
  | .enumeration _, .union _ | .enumeration _, .nullable _
  | .reference _, .scalar _ | .reference _, .enumeration _ | .reference _, .collection _
  | .reference _, .union _ | .reference _, .nullable _
  | .collection _, .scalar _ | .collection _, .enumeration _ | .collection _, .reference _
  | .collection _, .union _ | .collection _, .nullable _
  | .union _, .scalar _ | .union _, .enumeration _ | .union _, .reference _
  | .union _, .collection _ | .union _, .nullable _
  | .nullable _, .scalar _ | .nullable _, .enumeration _ | .nullable _, .reference _
  | .nullable _, .collection _ | .nullable _, .union _ => isFalse (by simp)

/-- Decides whether two lists of kinds are written alike. -/
def decEqMembers : (kinds others : List Kind) → Decidable (kinds = others)
  | [], [] => isTrue rfl
  | [], _ :: _ => isFalse (by simp)
  | _ :: _, [] => isFalse (by simp)
  | kind :: kinds, other :: others =>
    match decEq kind other, decEqMembers kinds others with
    | isTrue h, isTrue hs => isTrue (h ▸ hs ▸ rfl)
    | isFalse h, _ => isFalse fun heq => h (List.cons.inj heq).1
    | _, isFalse hs => isFalse fun heq => hs (List.cons.inj heq).2

end

instance : DecidableEq Kind := decEq

instance : Inhabited Kind := ⟨.null⟩

end Kind

end LinkedSchema
