import LinkedSchema.Json.Number
import LinkedSchema.Table

/-!
# JSON values

A JSON value whose objects keep their members in writing order. Equality of values in the sense of
the format (`Json.equal`) is coarser than equality of their representations: the order of members
does not count, and the two floating-point zeros are equal.
-/

namespace LinkedSchema

/-- A JSON value. Members of an object stand in the order in which they were first written. -/
inductive Json
  | null
  | bool (value : Bool)
  | num (value : Number)
  | str (value : String)
  | arr (items : List Json)
  | obj (members : List (String × Json))

/-- The kinds of value that messages tell apart. -/
inductive Shape
  | null
  | boolean
  | integer
  | number
  | string
  | array
  | object
  deriving DecidableEq

/-- The word for a kind of value. -/
def Shape.name : Shape → String
  | .null => "null"
  | .boolean => "boolean"
  | .integer => "integer"
  | .number => "number"
  | .string => "string"
  | .array => "array"
  | .object => "object"

namespace Json

instance : Inhabited Json := ⟨.null⟩

/-- The kind of a value; a whole number is told apart from a floating-point number. -/
def shape : Json → Shape
  | .null => .null
  | .bool _ => .boolean
  | .num (.int _) => .integer
  | .num (.float _) => .number
  | .str _ => .string
  | .arr _ => .array
  | .obj _ => .object

mutual

/-- Equality of values: numbers by `Number.equal`, arrays item by item, objects whatever the order
of their members. -/
def equal : Json → Json → Bool
  | .null, .null => true
  | .bool a, .bool b => a == b
  | .num a, .num b => a.equal b
  | .str a, .str b => a == b
  | .arr items, .arr others => equalItems items others
  | .obj members, .obj others => members.length == others.length && equalMembers members others
  | _, _ => false

/-- Equality of two lists of values, item by item. -/
def equalItems : List Json → List Json → Bool
  | [], [] => true
  | item :: items, other :: others => equal item other && equalItems items others
  | _, _ => false

/-- Every member has an equal value under its key in the other object. -/
def equalMembers : List (String × Json) → List (String × Json) → Bool
  | [], _ => true
  | (key, value) :: members, others =>
    (match Table.get? others key with
      | some other => equal value other
      | none => false) && equalMembers members others

end

mutual

/-- The number of values that a value is made of, itself included. -/
def size : Json → Nat
  | .arr items => 1 + sizeItems items
  | .obj members => 1 + sizeMembers members
  | _ => 1

/-- The number of values in a list, those inside them included. -/
def sizeItems : List Json → Nat
  | [] => 0
  | item :: items => size item + sizeItems items

/-- The number of values in the members of an object, those inside them included. -/
def sizeMembers : List (String × Json) → Nat
  | [] => 0
  | (_, value) :: members => size value + sizeMembers members

end

/-- A value found under a key is no larger than the members it was found in. -/
theorem size_le_of_get? {members : List (String × Json)} {key : String} {value : Json}
    (h : Table.get? members key = some value) : value.size ≤ sizeMembers members := by
  induction members with
  | nil => simp at h
  | cons member rest ih =>
    obtain ⟨name, first⟩ := member
    simp only [Table.get?_cons] at h
    simp only [sizeMembers]
    split at h
    · cases h
      omega
    · have := ih h
      omega

/-- An item is no larger than the items it is one of. -/
theorem size_le_of_mem {items : List Json} {item : Json} (h : item ∈ items) :
    item.size ≤ sizeItems items := by
  induction items with
  | nil => cases h
  | cons first rest ih =>
    simp only [sizeItems]
    rcases List.mem_cons.mp h with rfl | h
    · omega
    · have := ih h
      omega

/-- Every value is made of at least one value. -/
theorem size_pos (value : Json) : 0 < value.size := by
  cases value <;> simp only [size] <;> omega

mutual

/-- Decides whether two values have the same representation. -/
def decEq : (a b : Json) → Decidable (a = b)
  | .null, .null => isTrue rfl
  | .bool a, .bool b => decidable_of_iff (a = b) (by simp)
  | .num a, .num b => decidable_of_iff (a = b) (by simp)
  | .str a, .str b => decidable_of_iff (a = b) (by simp)
  | .arr items, .arr others =>
    match decEqItems items others with
    | isTrue h => isTrue (h ▸ rfl)
    | isFalse h => isFalse fun heq => h (by simpa using heq)
  | .obj members, .obj others =>
    match decEqMembers members others with
    | isTrue h => isTrue (h ▸ rfl)
    | isFalse h => isFalse fun heq => h (by simpa using heq)
  | .null, .bool _ | .null, .num _ | .null, .str _ | .null, .arr _ | .null, .obj _
  | .bool _, .null | .bool _, .num _ | .bool _, .str _ | .bool _, .arr _ | .bool _, .obj _
  | .num _, .null | .num _, .bool _ | .num _, .str _ | .num _, .arr _ | .num _, .obj _
  | .str _, .null | .str _, .bool _ | .str _, .num _ | .str _, .arr _ | .str _, .obj _
  | .arr _, .null | .arr _, .bool _ | .arr _, .num _ | .arr _, .str _ | .arr _, .obj _
  | .obj _, .null | .obj _, .bool _ | .obj _, .num _ | .obj _, .str _ | .obj _, .arr _ =>
    isFalse (by simp)

/-- Decides whether two lists of values have the same representation. -/
def decEqItems : (items others : List Json) → Decidable (items = others)
  | [], [] => isTrue rfl
  | [], _ :: _ => isFalse (by simp)
  | _ :: _, [] => isFalse (by simp)
  | item :: items, other :: others =>
    match decEq item other, decEqItems items others with
    | isTrue h, isTrue hs => isTrue (h ▸ hs ▸ rfl)
    | isFalse h, _ => isFalse fun heq => h (List.cons.inj heq).1
    | _, isFalse hs => isFalse fun heq => hs (List.cons.inj heq).2

/-- Decides whether two lists of members have the same representation. -/
def decEqMembers : (members others : List (String × Json)) → Decidable (members = others)
  | [], [] => isTrue rfl
  | [], _ :: _ => isFalse (by simp)
  | _ :: _, [] => isFalse (by simp)
  | (key, value) :: members, (key', other) :: others =>
    match (inferInstance : Decidable (key = key')), decEq value other,
        decEqMembers members others with
    | isTrue hk, isTrue h, isTrue hs => isTrue (hk ▸ h ▸ hs ▸ rfl)
    | isFalse hk, _, _ => isFalse fun heq => hk (Prod.mk.inj (List.cons.inj heq).1).1
    | _, isFalse h, _ => isFalse fun heq => h (Prod.mk.inj (List.cons.inj heq).1).2
    | _, _, isFalse hs => isFalse fun heq => hs (List.cons.inj heq).2

end

instance : DecidableEq Json := decEq

/-- The members of an object, nothing for any other value. -/
def members? : Json → Option (List (String × Json))
  | .obj members => some members
  | _ => none

end Json

end LinkedSchema
