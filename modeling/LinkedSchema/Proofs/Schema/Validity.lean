import LinkedSchema.Schema
import Mathlib.Init

/-!
# Validity against a schema

What a JSON Schema of a document demands of a value. Each member of a schema is read as a
constraint: the type of the value, a closed list of values, the schema of the items of an array,
alternatives, a place among the definitions of the document, the schemas of the members of an
object, which are then the only members, or the names of required members. Whatever else stands in
a schema demands nothing.
-/

namespace LinkedSchema

/-- The types that a value has in the words of a schema. A whole number is also a number. -/
def Json.typeNames : Json → List String
  | .null => ["null"]
  | .bool _ => ["boolean"]
  | .num (.int _) => ["integer", "number"]
  | .num (.float _) => ["number"]
  | .str _ => ["string"]
  | .arr _ => ["array"]
  | .obj _ => ["object"]

/-- What a member of a schema demands. -/
inductive Constraint
  | type (name : String)
  | enum (literals : List Json)
  | items (schema : Json)
  | anyOf (schemas : List Json)
  | reference (pointer : String)
  | properties (schemas : Table Json)
  | required (names : List Json)

namespace Constraint

/-- The constraint that a member of a schema states, if any. -/
def ofMember? : String × Json → Option Constraint
  | ("type", .str name) => some (.type name)
  | ("enum", .arr literals) => some (.enum literals)
  | ("items", schema) => some (.items schema)
  | ("anyOf", .arr schemas) => some (.anyOf schemas)
  | ("$ref", .str pointer) => some (.reference pointer)
  | ("properties", .obj schemas) => some (.properties schemas)
  | ("required", .arr names) => some (.required names)
  | _ => none

/-- The constraints that the members of a schema state. -/
def ofMembers (members : List (String × Json)) : List Constraint :=
  members.filterMap ofMember?

end Constraint

mutual

/-- A value is valid against a schema if it meets every constraint of the schema. -/
inductive Valid (definitions : Table Json) : Json → Json → Prop
  | intro {members : List (String × Json)} {value : Json} :
    (∀ constraint ∈ Constraint.ofMembers members, Meets definitions constraint value) →
    Valid definitions (.obj members) value

/-- A value meets a constraint. A constraint on arrays or on objects demands nothing of other
values. -/
inductive Meets (definitions : Table Json) : Constraint → Json → Prop
  | type {name : String} {value : Json} : name ∈ value.typeNames →
    Meets definitions (.type name) value
  | enum {literals : List Json} {value literal : Json} : literal ∈ literals →
    literal.equal value = true → Meets definitions (.enum literals) value
  | items {schema value : Json} :
    (∀ items, value = .arr items → ∀ item ∈ items, Valid definitions schema item) →
    Meets definitions (.items schema) value
  | anyOf {schemas : List Json} {schema value : Json} : schema ∈ schemas →
    Valid definitions schema value → Meets definitions (.anyOf schemas) value
  | reference {pointer name : String} {schema value : Json} : pointer = definitionPointer name →
    Table.get? definitions name = some schema → Valid definitions schema value →
    Meets definitions (.reference pointer) value
  | properties {schemas : Table Json} {value : Json} :
    (∀ members, value = .obj members → ∀ key ∈ Table.keys members, key ∈ Table.keys schemas) →
    (∀ members key inner schema, value = .obj members → Table.get? members key = some inner →
      Table.get? schemas key = some schema → Valid definitions schema inner) →
    Meets definitions (.properties schemas) value
  | required {names : List Json} {value : Json} :
    (∀ members, value = .obj members → ∀ name, .str name ∈ names → name ∈ Table.keys members) →
    Meets definitions (.required names) value

end

variable {definitions : Table Json} {value : Json}

/-- Validity against an object is the meeting of its constraints. -/
theorem valid_obj_iff {members : List (String × Json)} :
    Valid definitions (.obj members) value ↔
      ∀ constraint ∈ Constraint.ofMembers members, Meets definitions constraint value := by
  constructor
  · rintro ⟨h⟩
    exact h
  · exact .intro

/-- A type is met by the values that it names. -/
theorem meets_type_iff {name : String} :
    Meets definitions (.type name) value ↔ name ∈ value.typeNames := by
  constructor
  · rintro ⟨⟩
    assumption
  · exact .type

/-- An enumeration is met by what is equal to a literal. -/
theorem meets_enum_iff {literals : List Json} :
    Meets definitions (.enum literals) value ↔
      ∃ literal ∈ literals, literal.equal value = true := by
  constructor
  · intro h
    cases h with
    | enum hmem hequal => exact ⟨_, hmem, hequal⟩
  · rintro ⟨literal, hmem, hequal⟩
    exact .enum hmem hequal

/-- A schema for items is met by arrays whose items are all valid for it. -/
theorem meets_items_iff {schema : Json} {items : List Json} :
    Meets definitions (.items schema) (.arr items) ↔
      ∀ item ∈ items, Valid definitions schema item := by
  constructor
  · intro h
    cases h with
    | items h => exact h items rfl
  · intro h
    refine .items ?_
    rintro _ ⟨⟩
    exact h

/-- Alternatives are met by what is valid for one of them. -/
theorem meets_anyOf_iff {schemas : List Json} :
    Meets definitions (.anyOf schemas) value ↔
      ∃ schema ∈ schemas, Valid definitions schema value := by
  constructor
  · intro h
    cases h with
    | anyOf hmem h => exact ⟨_, hmem, h⟩
  · rintro ⟨schema, hmem, h⟩
    exact .anyOf hmem h

/-- Different names have different places among the definitions. -/
theorem definitionPointer_injective {name other : String}
    (h : definitionPointer name = definitionPointer other) : name = other := by
  have hlists := congrArg String.toList h
  simp only [definitionPointer, String.toList_append] at hlists
  exact String.toList_inj.mp (List.append_cancel_left hlists)

/-- A reference to the place of a name demands what the definition of the name demands. -/
theorem meets_reference_iff {name : String} :
    Meets definitions (.reference (definitionPointer name)) value ↔
      ∃ schema, Table.get? definitions name = some schema ∧ Valid definitions schema value := by
  constructor
  · intro h
    cases h with
    | reference hpointer hschema h =>
      obtain rfl := definitionPointer_injective hpointer
      exact ⟨_, hschema, h⟩
  · rintro ⟨schema, hschema, h⟩
    exact .reference rfl hschema h

/-- The schemas of properties demand that every member has one and is valid against it. -/
theorem meets_properties_iff {schemas members : Table Json} :
    Meets definitions (.properties schemas) (.obj members) ↔
      ∀ key inner, Table.get? members key = some inner →
        ∃ schema, Table.get? schemas key = some schema ∧ Valid definitions schema inner := by
  constructor
  · intro h key inner hinner
    cases h with
    | properties hclosed hvalid =>
      have hkey := hclosed members rfl key (Table.mem_keys_iff.mpr ⟨inner, hinner⟩)
      obtain ⟨schema, hschema⟩ := Table.mem_keys_iff.mp hkey
      exact ⟨schema, hschema, hvalid members key inner schema rfl hinner hschema⟩
  · intro h
    refine .properties ?_ ?_
    · rintro _ ⟨⟩ key hkey
      obtain ⟨inner, hinner⟩ := Table.mem_keys_iff.mp hkey
      obtain ⟨schema, hschema, -⟩ := h key inner hinner
      exact Table.mem_keys_iff.mpr ⟨schema, hschema⟩
    · rintro _ key inner schema ⟨⟩ hinner hschema
      obtain ⟨found, hfound, hvalid⟩ := h key inner hinner
      obtain rfl : found = schema := Option.some.inj (hfound.symm.trans hschema)
      exact hvalid

/-- Required names are met by objects that have them all. -/
theorem meets_required_iff {names : List Json} {members : Table Json} :
    Meets definitions (.required names) (.obj members) ↔
      ∀ name, .str name ∈ names → name ∈ Table.keys members := by
  constructor
  · intro h
    cases h with
    | required h => exact h members rfl
  · intro h
    refine .required ?_
    rintro _ ⟨⟩
    exact h

end LinkedSchema
