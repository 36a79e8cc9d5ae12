import LinkedSchema.Json.Reader

/-!
# Reading records

A record with named fields is read from an object or from an array. In an object the fields stand
in any order, each at most once, and members with other keys are skipped. In an array the fields
stand in the order of the record's declaration. A field that may be missing keeps what the blank
record has.
-/

namespace LinkedSchema

/-- A field of a record that is being read into `σ`. -/
structure RecordField (σ : Type) where
  name : String
  required : Bool
  isFilled : σ → Bool
  fill : Nat → Draft → σ → Except ReadError σ

/-- How a record is read: its name in messages, the record before any field is read, and the
fields in the order of declaration. What is read of it may still lack fields that are required. -/
structure RecordForm (σ : Type) where
  name : String
  blank : σ
  fields : List (RecordField σ)

namespace RecordForm

variable {σ : Type}

/-- Reads the members of an object in order. A repeated field is refused at its key. -/
def fillMembers (form : RecordForm σ) (depth : Nat) :
    σ → List (Lexeme String × Draft) → Except ReadError σ
  | record, [] => .ok record
  | record, (key, value) :: members => do
    let name ← key.read
    match form.fields.find? (·.name = name) with
    | none =>
      value.skip.mapError .fault
      form.fillMembers depth record members
    | some field =>
      if field.isFilled record then .error (.mismatch (.duplicateField name))
      else
        let record ← field.fill depth value record
        form.fillMembers depth record members

/-- Reads the items of an array as the fields from some position on. Items beyond the last field
are no part of the record. -/
def fillItems (form : RecordForm σ) (depth : Nat) (cut : Option Fault) :
    Nat → List (RecordField σ) → List Draft → σ → Except ReadError σ
  | _, [], [], record => do
    Draft.finish cut
    return record
  | _, [], _ :: _, _ => Fault.malformed.raise
  | position, field :: fields, item :: items, record => do
    let record ← field.fill depth item record
    form.fillItems depth cut (position + 1) fields items record
  | position, field :: fields, [], record => do
    Draft.finish cut
    if field.required then
      .error (.mismatch (.invalidLength position form.name form.fields.length))
    else form.fillItems depth cut (position + 1) fields [] record

/-- Reads the fields of a record. -/
def read (form : RecordForm σ) (depth : Nat) : Draft → Except ReadError σ
  | .object members cut =>
    match depth with
    | 0 => Fault.malformed.raise
    | depth + 1 => do
      let record ← form.fillMembers depth form.blank members
      Draft.finish cut
      return record
  | .array items cut =>
    match depth with
    | 0 => Fault.malformed.raise
    | depth + 1 => form.fillItems depth cut 0 form.fields items form.blank
  | draft => draft.refuse (.record form.name)

/-- The value of a required field, or the refusal of a record that lacks it. -/
def require {α : Type} (name : String) : Option α → Except ReadError α
  | some value => .ok value
  | none => .error (.mismatch (.missingField name))

end RecordForm

end LinkedSchema
