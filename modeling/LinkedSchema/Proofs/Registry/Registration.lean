import LinkedSchema.Registry
import Mathlib.Init

/-!
# Registrations

The metadata of a field and the class identifier of a type are registered by the same rules. Each
registration is about a subject, and a registry holds at most one registration of a subject. What
comes of a further one is settled by its names first, then by its identifier, then by what the
registry holds of the subject, and by the phase only where it holds nothing.
-/

namespace LinkedSchema

/-- Whether no name of the subject is empty. -/
def Subject.isNamed : Subject → Bool
  | .type name => name ≠ ""
  | .field owner name => owner ≠ "" && name ≠ ""

/-- What can be registered: the metadata of a field, or the class identifier of a type. -/
inductive Registration
  | field (owner name : String) (metadata : FieldMetadata)
  | type (name id : String)
  deriving DecidableEq

namespace Registration

/-- What the registration is about. -/
def subject : Registration → Subject
  | .field owner name _ => .field owner name
  | .type name _ => .type name

/-- The identifier that is registered, if there is one. -/
def identifier? : Registration → Option String
  | .field _ _ metadata => metadata.id
  | .type _ id => some id

/-- Whether no name is empty and the identifier, if there is one, is valid. -/
def isWellFormed (registration : Registration) : Bool :=
  registration.subject.isNamed && registration.identifier?.all Identifier.isValid

/-- The refusal of a registration while another one is held of its subject. -/
inductive Conflict : Registration → Registration → RegistrationError → Prop
  | field (owner name : String) (existing attempted : FieldMetadata) :
    Conflict (.field owner name existing) (.field owner name attempted)
      (.conflictingField owner name existing attempted)
  | type (name existing attempted : String) :
    Conflict (.type name existing) (.type name attempted)
      (.conflictingType name existing attempted)

/-- Two registrations are in one conflict at most. -/
theorem Conflict.unique {existing attempted : Registration} {error other : RegistrationError}
    (h : existing.Conflict attempted error) (hother : existing.Conflict attempted other) :
    error = other := by
  cases h with
  | field => cases hother; rfl
  | type => cases hother; rfl

/-- There is a refusal for any two registrations of one subject. -/
theorem exists_conflict {existing attempted : Registration}
    (h : existing.subject = attempted.subject) : ∃ error, existing.Conflict attempted error := by
  cases existing with
  | field owner name existing =>
    cases attempted with
    | field _ _ attempted =>
      obtain ⟨rfl, rfl⟩ := Subject.field.inj h
      exact ⟨_, .field owner name existing attempted⟩
    | type => cases h
  | type name existing =>
    cases attempted with
    | field => cases h
    | type _ attempted =>
      obtain rfl := Subject.type.inj h
      exact ⟨_, .type name existing attempted⟩

end Registration

namespace Registry

/-- Registers the metadata of a field or the class identifier of a type. -/
def enter (registry : Registry) : Registration → Except RegistrationError Registry
  | .field type name metadata => registry.register type name metadata
  | .type name id => registry.registerType name id

/-- The registry with a registration put in. -/
def put (registry : Registry) : Registration → Registry
  | .field type name metadata => registry.putField type name metadata
  | .type name id => registry.putClass name id

/-- The registration that the registry holds of a subject. -/
def held? (registry : Registry) : Subject → Option Registration
  | .field type name => (registry.field? type name).map (.field type name)
  | .type name => (registry.classId? name).map (.type name)

variable {registry : Registry} {registration : Registration}

/-- What is held for a field is its metadata. -/
theorem held?_field_iff {type name : String} {metadata : FieldMetadata} :
    registry.held? (.field type name) = some (.field type name metadata) ↔
      registry.field? type name = some metadata := by
  simp [held?]

/-- What is held for a type is its class identifier. -/
theorem held?_type_iff {name id : String} :
    registry.held? (.type name) = some (.type name id) ↔ registry.classId? name = some id := by
  simp [held?]

/-- What is held of a subject is about the subject. -/
theorem subject_of_held? {subject : Subject} (h : registry.held? subject = some registration) :
    registration.subject = subject := by
  cases subject with
  | field type name =>
    obtain ⟨metadata, -, rfl⟩ := Option.map_eq_some_iff.mp h
    rfl
  | type name =>
    obtain ⟨id, -, rfl⟩ := Option.map_eq_some_iff.mp h
    rfl

/-- A registration that was put in is held of its subject, and of every other subject what was held
before. -/
theorem held?_put (registry : Registry) (registration : Registration) (subject : Subject) :
    (registry.put registration).held? subject =
      if registration.subject = subject then some registration else registry.held? subject := by
  cases registration with
  | field type name metadata =>
    cases subject with
    | field otherType otherName =>
      simp only [put, held?, field?_putField, Registration.subject, Subject.field.injEq]
      split
      · next h => simp [h]
      · rfl
    | type other => simp [put, held?, Registration.subject]
  | type name id =>
    cases subject with
    | field otherType otherName => simp [put, held?, Registration.subject]
    | type other =>
      simp only [put, held?, classId?_putClass, Registration.subject, Subject.type.injEq]
      split
      · next h => simp [h]
      · rfl

/-- Putting a registration in does not freeze a registry. -/
@[simp] theorem phase_put (registry : Registry) (registration : Registration) :
    (registry.put registration).phase = registry.phase := by
  cases registration <;> rfl

/-- What a registry answers to a registration. -/
inductive Answers (registry : Registry) (registration : Registration) :
    Except RegistrationError Registry → Prop
  | unnamed : registration.subject.isNamed = false →
    Answers registry registration (.error .emptyName)
  | invalid {id : String} : registration.subject.isNamed = true →
    registration.identifier? = some id → Identifier.isValid id = false →
    Answers registry registration (.error (.invalidIdentifier id))
  | repeated : registration.isWellFormed = true →
    registry.held? registration.subject = some registration →
    Answers registry registration (.ok registry)
  | differing {existing : Registration} {error : RegistrationError} :
    registration.isWellFormed = true →
    registry.held? registration.subject = some existing → existing ≠ registration →
    existing.Conflict registration error → Answers registry registration (.error error)
  | frozen : registration.isWellFormed = true →
    registry.held? registration.subject = none → registry.phase = .frozen →
    Answers registry registration (.error (.frozen registration.subject))
  | new : registration.isWellFormed = true →
    registry.held? registration.subject = none → registry.phase = .populating →
    Answers registry registration (.ok (registry.put registration))

/-- Registering a field gives the answer that is due. -/
theorem answers_register (registry : Registry) (type name : String) (metadata : FieldMetadata) :
    registry.Answers (.field type name metadata) (registry.register type name metadata) := by
  unfold register
  split
  · next hempty =>
    refine .unnamed ?_
    simpa [Registration.subject, Subject.isNamed, Decidable.imp_iff_not_or] using hempty
  · next hnamed =>
    have hsubject : (Registration.field type name metadata).subject.isNamed = true := by
      simpa [Registration.subject, Subject.isNamed] using hnamed
    split
    · next id hid =>
      obtain ⟨hid, hinvalid⟩ := Option.filter_eq_some_iff.mp hid
      exact .invalid hsubject hid (by simpa using hinvalid)
    · next hvalid =>
      have hwell : (Registration.field type name metadata).isWellFormed = true := by
        rw [Registration.isWellFormed, hsubject, Bool.true_and]
        simpa [Registration.identifier?, Option.all_eq_true] using hvalid
      split
      · next existing hexisting =>
        have hheld : registry.held? (Registration.field type name metadata).subject =
            some (.field type name existing) := held?_field_iff.mpr hexisting
        split
        · next heq => exact .repeated hwell (heq ▸ hheld)
        · next hne => exact .differing hwell hheld (by simpa using hne) (.field type name _ _)
      · next habsent =>
        have hheld : registry.held? (Registration.field type name metadata).subject = none := by
          simp [Registration.subject, held?, habsent]
        split
        · next hphase => exact .frozen hwell hheld hphase
        · next hphase => exact .new hwell hheld hphase

/-- Registering a type gives the answer that is due. -/
theorem answers_registerType (registry : Registry) (name id : String) :
    registry.Answers (.type name id) (registry.registerType name id) := by
  unfold registerType
  split
  · next hempty =>
    refine .unnamed ?_
    simpa [Registration.subject, Subject.isNamed] using hempty
  · next hnamed =>
    have hsubject : (Registration.type name id).subject.isNamed = true := by
      simpa [Registration.subject, Subject.isNamed] using hnamed
    split
    · next hinvalid => exact .invalid hsubject rfl (by simpa using hinvalid)
    · next hvalid =>
      have hwell : (Registration.type name id).isWellFormed = true := by
        rw [Registration.isWellFormed, hsubject, Bool.true_and]
        simpa [Registration.identifier?] using hvalid
      split
      · next existing hexisting =>
        have hheld : registry.held? (Registration.type name id).subject =
            some (.type name existing) := held?_type_iff.mpr hexisting
        split
        · next heq => exact .repeated hwell (heq ▸ hheld)
        · next hne => exact .differing hwell hheld (by simpa using hne) (.type name _ _)
      · next habsent =>
        have hheld : registry.held? (Registration.type name id).subject = none := by
          simp [Registration.subject, held?, habsent]
        split
        · next hphase => exact .frozen hwell hheld hphase
        · next hphase => exact .new hwell hheld hphase

/-- Every registration gives the answer that is due. -/
theorem answers_enter (registry : Registry) (registration : Registration) :
    registry.Answers registration (registry.enter registration) := by
  cases registration with
  | field type name metadata => exact answers_register registry type name metadata
  | type name id => exact answers_registerType registry name id

/-- A registry answers in one way only. -/
theorem Answers.unique {answer other : Except RegistrationError Registry}
    (h : registry.Answers registration answer) (hother : registry.Answers registration other) :
    answer = other := by
  cases h with
  | unnamed hunnamed => cases hother <;> simp_all [Registration.isWellFormed]
  | invalid hnamed hid hinvalid => cases hother <;> simp_all [Registration.isWellFormed]
  | repeated hwell hheld => cases hother <;> simp_all [Registration.isWellFormed]
  | differing hwell hheld hne hconflict =>
    cases hother with
    | differing _ hother _ hconflictOther =>
      obtain rfl := Option.some.inj (hheld.symm.trans hother)
      rw [hconflict.unique hconflictOther]
    | _ => simp_all [Registration.isWellFormed]
  | frozen hwell hheld hphase => cases hother <;> simp_all [Registration.isWellFormed]
  | new hwell hheld hphase => cases hother <;> simp_all [Registration.isWellFormed]

/-- Registering comes to the answer of the registry. -/
theorem enter_eq_iff {answer : Except RegistrationError Registry} :
    registry.enter registration = answer ↔ registry.Answers registration answer := by
  constructor
  · rintro rfl
    exact answers_enter registry registration
  · exact (answers_enter registry registration).unique

end Registry

end LinkedSchema
