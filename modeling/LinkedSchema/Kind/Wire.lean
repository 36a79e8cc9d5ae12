import LinkedSchema.Json.Record
import LinkedSchema.Json.Printer
import LinkedSchema.Kind.Basic

/-!
# Kinds as JSON

A kind is written as an object with one member, whose key names the form of the kind and whose
value is its content; a scalar type is written as its name. In reading, a scalar type may also be
an object with one member that is null.
-/

namespace LinkedSchema

namespace ScalarType

/-- The scalar type of a name in a text. -/
def named (name : String) : Except ReadError ScalarType :=
  match ofName? name with
  | some type => .ok type
  | none => .error (.mismatch (.unknownVariant name (all.map ScalarType.name)))

/-- Reads a scalar type. -/
def ofDraft (depth : Nat) : Draft → Except ReadError ScalarType
  | .text lexeme => do named (← lexeme.read)
  | .object ((key, value) :: members) cut =>
    match depth with
    | 0 => Fault.malformed.raise
    | _ + 1 => do
      let type ← named (← key.read)
      value.toUnit
      if members.isEmpty then Draft.finish cut else Fault.malformed.raise
      return type
  | .missing fault => fault.raise
  | _ => Fault.malformed.raise

/-- The message about a name that is no scalar type. -/
def unknownMessage (name : String) : String :=
  "unknown scalar type " ++ Text.quoted name ++ "; expected one of: " ++
    String.intercalate ", " (all.map ScalarType.name)

/-- The scalar type of a name, or the message about a name that is none. -/
def parse (name : String) : Except String ScalarType :=
  match ofName? name with
  | some type => .ok type
  | none => .error (unknownMessage name)

end ScalarType

namespace Kind

/-- The forms of kinds. -/
inductive Form
  | scalar
  | enumeration
  | reference
  | collection
  | union
  | nullable
  deriving DecidableEq

namespace Form

/-- The forms in the order of their listing in messages. -/
def all : List Form :=
  [.scalar, .enumeration, .reference, .collection, .union, .nullable]

/-- The key of a form. -/
def name : Form → String
  | .scalar => "scalar"
  | .enumeration => "enumeration"
  | .reference => "reference"
  | .collection => "collection"
  | .union => "union"
  | .nullable => "nullable"

/-- The form of a key in a text. -/
def named (name : String) : Except ReadError Form :=
  match all.find? (·.name = name) with
  | some form => .ok form
  | none => .error (.mismatch (.unknownVariant name (all.map Form.name)))

/-- A form of kinds is found again under its name. -/
theorem named_name (form : Form) : named form.name = .ok form := by
  cases form <;> rfl

end Form

mutual

/-- The kind as JSON. -/
def toJson : Kind → Json
  | .scalar type => .obj [(Form.scalar.name, .str type.name)]
  | .enumeration literals => .obj [(Form.enumeration.name, .arr literals)]
  | .reference name => .obj [(Form.reference.name, .str name)]
  | .collection item => .obj [(Form.collection.name, toJson item)]
  | .union members => .obj [(Form.union.name, .arr (membersToJson members))]
  | .nullable inner => .obj [(Form.nullable.name, toJson inner)]

/-- The members of a union as JSON. -/
def membersToJson : List Kind → List Json
  | [] => []
  | kind :: kinds => toJson kind :: membersToJson kinds

end

mutual

/-- Reads a kind. -/
def ofDraft (depth : Nat) : Draft → Except ReadError Kind
  | .text lexeme => do
    let _ ← Form.named (← lexeme.read)
    .error (.mismatch .bareVariant)
  | .object ((key, value) :: members) cut =>
    match depth with
    | 0 => Fault.malformed.raise
    | depth + 1 => do
      let kind ← match (← Form.named (← key.read)) with
        | .scalar => Kind.scalar <$> ScalarType.ofDraft depth value
        | .enumeration => Kind.enumeration <$> value.toList Draft.toJson depth
        | .reference => Kind.reference <$> value.toText
        | .collection => Kind.collection <$> ofDraft depth value
        | .nullable => Kind.nullable <$> ofDraft depth value
        | .union =>
          match value with
          | .array items cut =>
            match depth with
            | 0 => Fault.malformed.raise
            | depth + 1 => do
              let kinds ← ofItems depth items
              Draft.finish cut
              pure (Kind.union kinds)
          | value => value.refuse .sequence
      if members.isEmpty then Draft.finish cut else Fault.malformed.raise
      return kind
  | .missing fault => fault.raise
  | _ => Fault.malformed.raise
  termination_by structural draft => draft

/-- Reads the members of a union. -/
def ofItems (depth : Nat) : List Draft → Except ReadError (List Kind)
  | [] => .ok []
  | item :: items => do
    let member ← ofDraft depth item
    return member :: (← ofItems depth items)
  termination_by structural items => items

end

/-- Reads a kind from a JSON text. -/
def read (s : String) : Except ReadError Kind :=
  readWith ofDraft s

end Kind

end LinkedSchema
