import LinkedSchema.Export
import LinkedSchema.Proofs.Identifier.Form
import LinkedSchema.Proofs.Registry.Registration

/-!
# The history of a registry

Registrations, freezing and exports may follow one another in any order. Of each subject a registry
holds the first well-formed registration in its history, provided that nothing froze the registry
before. So what was once looked up is found ever after, and a frozen registry does not change.
-/

namespace LinkedSchema

/-- A use of a registry. -/
inductive Call
  | register (registration : Registration)
  | freeze
  | exportDocument (catalog : Catalog) (vocabulary : Vocabulary) (root : String)
    (instance? : Option Json)

/-- Whether the call freezes the registry. -/
def Call.freezes : Call → Bool
  | .register _ => false
  | .freeze => true
  | .exportDocument .. => true

/-- The first well-formed registration of a subject among calls of which none before it freezes the
registry. -/
def firstRegistration? (subject : Subject) : List Call → Option Registration
  | .register registration :: calls =>
    if registration.isWellFormed = true ∧ registration.subject = subject then some registration
    else firstRegistration? subject calls
  | _ => none

namespace Registry

/-- The registry after a call. A refused registration leaves it as it is. -/
def after (registry : Registry) : Call → Registry
  | .register registration =>
    match registry.enter registration with
    | .ok next => next
    | .error _ => registry
  | .freeze => registry.freeze
  | .exportDocument catalog vocabulary root instance? =>
    (exportDocument registry catalog vocabulary root instance?).1

/-- The registry after calls in turn. -/
def run (registry : Registry) (calls : List Call) : Registry :=
  calls.foldl after registry

/-- The registry that started empty, after calls in turn. -/
def ofCalls (calls : List Call) : Registry :=
  (∅ : Registry).run calls

variable {registry : Registry}

/-- A registration changes a registry only where it is well-formed, nothing is held of its subject
and the registry is not frozen. -/
theorem after_register (registry : Registry) (registration : Registration) :
    registry.after (.register registration) =
      if registration.isWellFormed = true ∧ registry.held? registration.subject = none ∧
        registry.phase = .populating then registry.put registration else registry := by
  have hanswer := answers_enter registry registration
  unfold after
  cases hresult : registry.enter registration with
  | error error =>
    rw [hresult] at hanswer
    cases hanswer <;> simp_all [Registration.isWellFormed]
  | ok next =>
    rw [hresult] at hanswer
    cases hanswer <;> simp_all

/-- A call that freezes a registry does nothing else to it. -/
theorem after_of_freezes {call : Call} (h : call.freezes = true) :
    registry.after call = registry.freeze := by
  cases call with
  | register registration => cases h
  | freeze => rfl
  | exportDocument catalog vocabulary root instance? => rfl

/-- A frozen registry stays as it is. -/
theorem after_of_frozen (h : registry.phase = .frozen) (call : Call) :
    registry.after call = registry := by
  cases hfreezes : call.freezes with
  | true => rw [after_of_freezes hfreezes, freeze, ← h]
  | false =>
    cases call with
    | register registration => simp [after_register, h]
    | _ => cases hfreezes

/-- No calls change a frozen registry. -/
theorem run_of_frozen (h : registry.phase = .frozen) (calls : List Call) :
    registry.run calls = registry := by
  induction calls with
  | nil => rfl
  | cons call calls ih =>
    rw [run, List.foldl_cons, after_of_frozen h]
    exact ih

/-- A registry is frozen after a call if it was frozen before or the call freezes it. -/
theorem phase_after_iff {call : Call} :
    (registry.after call).phase = .frozen ↔
      registry.phase = .frozen ∨ call.freezes = true := by
  cases hfreezes : call.freezes with
  | true => simp [after_of_freezes hfreezes, freeze]
  | false =>
    cases call with
    | register registration =>
      rw [after_register]
      split <;> simp
    | _ => cases hfreezes

/-- Only freezing and exports freeze a registry. -/
theorem phase_run_iff {calls : List Call} :
    (registry.run calls).phase = .frozen ↔
      registry.phase = .frozen ∨ ∃ call ∈ calls, call.freezes = true := by
  induction calls generalizing registry with
  | nil => simp [run]
  | cons call calls ih =>
    rw [run, List.foldl_cons, ← run, ih, phase_after_iff]
    simp [or_assoc]

/-- What a registry will hold of a subject after calls: what it holds already, or else, if it is not
frozen, the first registration to come. -/
def willHold? (registry : Registry) (calls : List Call) (subject : Subject) :
    Option Registration :=
  (registry.held? subject).or
    (if registry.phase = .frozen then none else firstRegistration? subject calls)

/-- The first call does not change what will be held after all of them. -/
theorem willHold?_after (registry : Registry) (call : Call) (calls : List Call)
    (subject : Subject) :
    (registry.after call).willHold? calls subject = registry.willHold? (call :: calls) subject := by
  cases call with
  | register registration =>
    simp only [willHold?, after_register, firstRegistration?]
    by_cases hsubject : registration.subject = subject
    · subst hsubject
      cases hheld : registry.held? registration.subject with
      | some existing => simp [hheld]
      | none =>
        cases hphase : registry.phase with
        | frozen => simp [hheld, hphase]
        | populating =>
          by_cases hwell : registration.isWellFormed = true
          · simp [hwell, held?_put]
          · simp [hwell, hheld, hphase]
    · split <;> simp [held?_put, hsubject]
  | freeze => simp [willHold?, after, freeze, held?, field?, classId?, firstRegistration?]
  | exportDocument catalog vocabulary root instance? =>
    simp [willHold?, after, exportDocument, freeze, held?, field?, classId?, firstRegistration?]

/-- Calls in turn lead to what will be held after them. -/
theorem held?_run (registry : Registry) (calls : List Call) (subject : Subject) :
    (registry.run calls).held? subject = registry.willHold? calls subject := by
  induction calls generalizing registry with
  | nil => simp [run, willHold?, firstRegistration?]
  | cons call calls ih => rw [run, List.foldl_cons, ← run, ih, willHold?_after]

/-- Later calls go on from the registry of the earlier ones. -/
theorem ofCalls_append (calls later : List Call) :
    ofCalls (calls ++ later) = (ofCalls calls).run later := by
  simp [ofCalls, run]

/-- A registry holds the first registration in its history. -/
theorem held?_ofCalls (calls : List Call) (subject : Subject) :
    (ofCalls calls).held? subject = firstRegistration? subject calls := by
  have hheld : (∅ : Registry).held? subject = none := by
    cases subject <;> rfl
  have hphase : (∅ : Registry).phase = .populating := rfl
  simp [ofCalls, held?_run, willHold?, hheld, hphase]

/-- A registry is frozen exactly if some call of its history freezes. -/
theorem phase_ofCalls_iff {calls : List Call} :
    (ofCalls calls).phase = .frozen ↔ ∃ call ∈ calls, call.freezes = true := by
  have hphase : (∅ : Registry).phase = .populating := rfl
  simp [ofCalls, phase_run_iff, hphase]

/-- What is held stays held. -/
theorem held?_run_of_held {registration : Registration} {subject : Subject}
    (h : registry.held? subject = some registration) (calls : List Call) :
    (registry.run calls).held? subject = some registration := by
  rw [held?_run, willHold?, h, Option.some_or]

/-- Only well-formed registrations are held. -/
theorem isWellFormed_of_held {calls : List Call} {registration : Registration} {subject : Subject}
    (h : (ofCalls calls).held? subject = some registration) : registration.isWellFormed = true := by
  rw [held?_ofCalls] at h
  induction calls with
  | nil => cases h
  | cons call calls ih =>
    cases call with
    | register first =>
      rw [firstRegistration?] at h
      split at h
      · next hfirst => exact Option.some.inj h ▸ hfirst.1
      · exact ih h
    | _ => cases h

/-- A registry is written once. In its whole history, whatever is registered, frozen or exported,
what is found once is found ever after; a frozen registry does not change any more; a refused
registration leaves the registry as it is; an export changes no look-up and freezes the registry,
whether or not it succeeds; and whatever is stored has names and, if any, an identifier of the right
form. -/
theorem write_once (calls : List Call) :
    (∀ later type field metadata, (ofCalls calls).field? type field = some metadata →
        (ofCalls (calls ++ later)).field? type field = some metadata) ∧
      (∀ later type id, (ofCalls calls).classId? type = some id →
        (ofCalls (calls ++ later)).classId? type = some id) ∧
      ((ofCalls calls).phase = .frozen → ∀ later, ofCalls (calls ++ later) = ofCalls calls) ∧
      (∀ registration error, (ofCalls calls).enter registration = .error error →
        ofCalls (calls ++ [.register registration]) = ofCalls calls) ∧
      (∀ catalog vocabulary root instance?,
        (∀ type field,
          (exportDocument (ofCalls calls) catalog vocabulary root instance?).1.field? type field =
            (ofCalls calls).field? type field) ∧
        (∀ type,
          (exportDocument (ofCalls calls) catalog vocabulary root instance?).1.classId? type =
            (ofCalls calls).classId? type) ∧
        (exportDocument (ofCalls calls) catalog vocabulary root instance?).1.phase = .frozen) ∧
      (∀ type field metadata, (ofCalls calls).field? type field = some metadata →
        type ≠ "" ∧ field ≠ "" ∧ ∀ id, metadata.id = some id → Identifier.HasForm id) ∧
      ∀ type id, (ofCalls calls).classId? type = some id → type ≠ "" ∧ Identifier.HasForm id := by
  refine ⟨?_, ?_, ?_, ?_, ?_, ?_, ?_⟩
  · intro later type field metadata h
    rw [ofCalls_append, ← held?_field_iff]
    exact held?_run_of_held (held?_field_iff.mpr h) later
  · intro later type id h
    rw [ofCalls_append, ← held?_type_iff]
    exact held?_run_of_held (held?_type_iff.mpr h) later
  · intro hfrozen later
    rw [ofCalls_append, run_of_frozen hfrozen]
  · intro registration error h
    simp [ofCalls_append, run, after, h]
  · intro catalog vocabulary root instance?
    exact ⟨fun type field => rfl, fun type => rfl, rfl⟩
  · intro type field metadata h
    have hwell := isWellFormed_of_held (held?_field_iff.mpr h)
    simpa [Registration.isWellFormed, Registration.subject, Subject.isNamed,
      Registration.identifier?, and_assoc, Option.all_eq_true, Identifier.isValid_iff] using hwell
  · intro type id h
    have hwell := isWellFormed_of_held (held?_type_iff.mpr h)
    simpa [Registration.isWellFormed, Registration.subject, Subject.isNamed,
      Registration.identifier?, Identifier.isValid_iff] using hwell

/-- A field and a type are registered, and an export that finds no model freezes the registry. -/
def taskHistory : List Call :=
  [.register (.field "Task" "effort" { id := some "cw:effort", unit := some "h" }),
    .register (.type "Task" "cw:Task"), .exportDocument ∅ {} "Task" none]

/-- The field and the class of the task stay as registered, and another class for it is refused. -/
theorem write_once_taskHistory :
    (ofCalls taskHistory).field? "Task" "effort" =
        some { id := some "cw:effort", unit := some "h" } ∧
      (∀ later, (ofCalls (taskHistory ++ later)).field? "Task" "effort" =
        some { id := some "cw:effort", unit := some "h" }) ∧
      (ofCalls taskHistory).classId? "Task" = some "cw:Task" ∧
      (∀ later, (ofCalls (taskHistory ++ later)).classId? "Task" = some "cw:Task") ∧
      (ofCalls taskHistory).phase = .frozen ∧
      (∀ later, ofCalls (taskHistory ++ later) = ofCalls taskHistory) ∧
      (ofCalls taskHistory).enter (.type "Task" "cw:Work") =
        .error (.conflictingType "Task" "cw:Task" "cw:Work") ∧
      ofCalls (taskHistory ++ [.register (.type "Task" "cw:Work")]) = ofCalls taskHistory ∧
      Identifier.HasForm "cw:effort" ∧ Identifier.HasForm "cw:Task" := by
  obtain ⟨hfield, hclass, hfrozen, hrefused, -, hstored, hstoredClass⟩ := write_once taskHistory
  have heffort : (ofCalls taskHistory).field? "Task" "effort" =
      some { id := some "cw:effort", unit := some "h" } := by decide +kernel
  have htask : (ofCalls taskHistory).classId? "Task" = some "cw:Task" := by decide +kernel
  have hphase : (ofCalls taskHistory).phase = .frozen := by decide +kernel
  have herror : (ofCalls taskHistory).enter (.type "Task" "cw:Work") =
      .error (.conflictingType "Task" "cw:Task" "cw:Work") := by decide +kernel
  exact ⟨heffort, fun later => hfield later _ _ _ heffort, htask,
    fun later => hclass later _ _ htask, hphase, hfrozen hphase, herror, hrefused _ _ herror,
    (hstored _ _ _ heffort).2.2 _ rfl, (hstoredClass _ _ htask).2⟩

end Registry

end LinkedSchema
