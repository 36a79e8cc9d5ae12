import LinkedSchema.Directory
import LinkedSchema.Identifier
import LinkedSchema.Metadata

/-!
# The metadata registry

The registry holds what the fields of types mean and which class each type stands for. It is
written once: what is stored is never changed, and registering the same again is always accepted.
Once frozen it takes nothing new.
-/

namespace LinkedSchema

/-- Whether the registry still takes new entries. -/
inductive Phase
  | populating
  | frozen
  deriving DecidableEq

/-- What a registration is about. -/
inductive Subject
  | type (name : String)
  | field (owner name : String)
  deriving DecidableEq

/-- The subject as messages name it. -/
def Subject.text : Subject → String
  | .type name => name
  | .field owner name => owner ++ "." ++ name

/-- Why a registration is refused. -/
inductive RegistrationError
  | emptyName
  | invalidIdentifier (id : String)
  | conflictingField (type field : String) (existing attempted : FieldMetadata)
  | conflictingType (type existing attempted : String)
  | frozen (subject : Subject)
  deriving DecidableEq

/-- The message of a refused registration. -/
def RegistrationError.message : RegistrationError → String
  | .emptyName => "type and field names must not be empty"
  | .invalidIdentifier id =>
    "identifier " ++ Text.quoted id ++
      " is invalid; expected an absolute IRI (https://…) or a prefixed name (prefix:local)"
  | .conflictingField type field existing attempted =>
    "conflicting metadata for " ++ type ++ "." ++ field ++ ": already registered as " ++
      existing.describe ++ ", attempted " ++ attempted.describe
  | .conflictingType type existing attempted =>
    "conflicting class identifier for " ++ type ++ ": already registered as " ++
      Text.quoted existing ++ ", attempted " ++ Text.quoted attempted
  | .frozen subject => "registry is frozen; cannot register new metadata for " ++ subject.text

/-- Metadata by type and field, and class identifiers by type. -/
structure Registry where
  fields : Directory (Directory FieldMetadata) := ∅
  classes : Directory String := ∅
  phase : Phase := .populating
  deriving DecidableEq

namespace Registry

/-- The registry in which nothing is registered. -/
def empty : Registry := {}

instance : EmptyCollection Registry := ⟨empty⟩

/-- The metadata of a field. -/
def field? (registry : Registry) (type field : String) : Option FieldMetadata :=
  (registry.fields.get? type).bind (·.get? field)

/-- The class identifier of a type. -/
def classId? (registry : Registry) (type : String) : Option String :=
  registry.classes.get? type

/-- The identifier of a field. -/
def fieldId? (registry : Registry) (type field : String) : Option String :=
  (registry.field? type field).bind (·.id)

/-- The number of fields with metadata. -/
def fieldCount (registry : Registry) : Nat :=
  registry.fields.values.foldl (fun n fields => n + fields.size) 0

/-- The registry that takes nothing new. -/
def freeze (registry : Registry) : Registry :=
  { registry with phase := .frozen }

/-- The registry with the metadata of a field put in. -/
def putField (registry : Registry) (type field : String) (metadata : FieldMetadata) : Registry :=
  { registry with
    fields := registry.fields.insert type
      (((registry.fields.get? type).getD ∅).insert field metadata) }

/-- The registry with the class identifier of a type put in. -/
def putClass (registry : Registry) (type id : String) : Registry :=
  { registry with classes := registry.classes.insert type id }

/-- Registers the metadata of a field. A name must not be empty, then the identifier must be
valid, then metadata stored for the field decides, and only then the phase. -/
def register (registry : Registry) (type field : String) (metadata : FieldMetadata) :
    Except RegistrationError Registry :=
  if type = "" ∨ field = "" then .error .emptyName
  else
    match metadata.id.filter (!Identifier.isValid ·) with
    | some id => .error (.invalidIdentifier id)
    | none =>
      match registry.field? type field with
      | some existing =>
        if existing = metadata then .ok registry
        else .error (.conflictingField type field existing metadata)
      | none =>
        match registry.phase with
        | .frozen => .error (.frozen (.field type field))
        | .populating => .ok (registry.putField type field metadata)

/-- Registers the class identifier of a type, by the same rules. -/
def registerType (registry : Registry) (type id : String) : Except RegistrationError Registry :=
  if type = "" then .error .emptyName
  else if !Identifier.isValid id then .error (.invalidIdentifier id)
  else
    match registry.classId? type with
    | some existing =>
      if existing = id then .ok registry else .error (.conflictingType type existing id)
    | none =>
      match registry.phase with
      | .frozen => .error (.frozen (.type type))
      | .populating => .ok (registry.putClass type id)

/-- A field that was put in has the new metadata and every other field what it had. -/
theorem field?_putField (registry : Registry) (type field : String) (metadata : FieldMetadata)
    (otherType otherField : String) :
    (registry.putField type field metadata).field? otherType otherField =
      if type = otherType ∧ field = otherField then some metadata
      else registry.field? otherType otherField := by
  simp only [field?, putField, Directory.get?_insert]
  by_cases htype : type = otherType
  · subst htype
    simp only [if_true, Option.bind_some, Directory.get?_insert, true_and]
    split
    · rfl
    · cases registry.fields.get? type <;> simp
  · simp [htype]

/-- Putting in a field leaves all class identifiers as they are. -/
@[simp] theorem classId?_putField (registry : Registry) (type field : String)
    (metadata : FieldMetadata) (other : String) :
    (registry.putField type field metadata).classId? other = registry.classId? other := rfl

/-- A type that was put in has the new class identifier and every other type what it had. -/
theorem classId?_putClass (registry : Registry) (type id other : String) :
    (registry.putClass type id).classId? other =
      if type = other then some id else registry.classId? other := by
  simp [classId?, putClass, Directory.get?_insert]

/-- Putting in a class identifier leaves all fields as they are. -/
@[simp] theorem field?_putClass (registry : Registry) (type id otherType otherField : String) :
    (registry.putClass type id).field? otherType otherField =
      registry.field? otherType otherField := rfl

end Registry

end LinkedSchema
