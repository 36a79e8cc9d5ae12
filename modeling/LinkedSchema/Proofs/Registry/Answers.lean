import LinkedSchema.Proofs.Registry.History

/-!
# Answers to registrations

What comes of a registration in the course of a history. An empty name and an invalid identifier are
refused whatever came before. A well-formed registration is accepted without effect if it is held
already and refused as a conflict if another one is held of its subject, frozen or not. Where none
is held, a frozen registry refuses it and any other takes it for good.
-/

namespace LinkedSchema.Registry

/-- A registration that a registry takes is held from then on, and nothing else changes. -/
theorem held_of_new {registry : Registry} {registration : Registration}
    (hwell : registration.isWellFormed = true)
    (hheld : registry.held? registration.subject = none) (hphase : registry.phase = .populating) :
    registry.enter registration = .ok (registry.after (.register registration)) ∧
      (registry.after (.register registration)).phase = .populating ∧
      (∀ later, ((registry.after (.register registration)).run later).held? registration.subject =
        some registration) ∧
      ∀ subject, subject ≠ registration.subject →
        (registry.after (.register registration)).held? subject = registry.held? subject := by
  have hafter : registry.after (.register registration) = registry.put registration := by
    rw [after_register, if_pos ⟨hwell, hheld, hphase⟩]
  rw [hafter]
  refine ⟨enter_eq_iff.mpr (.new hwell hheld hphase), by rw [phase_put, hphase], ?_, ?_⟩
  · intro later
    exact held?_run_of_held (by simp [held?_put]) later
  · intro subject hsubject
    rw [held?_put, if_neg hsubject.symm]

/-- The answer to a registration in every state of a registry. The registry holds the first
well-formed registration of each subject in its history, up to the first call that freezes it.
Empty names are refused first and invalid identifiers next. A registration that is held already
changes nothing, and one that differs from the one held is a conflict of the two, whether or not the
registry is frozen. Where nothing is held of its subject, it is refused while the registry is frozen
and otherwise found ever after. -/
theorem answer_of_history (calls : List Call) (registration : Registration) :
    (∀ subject, (ofCalls calls).held? subject = firstRegistration? subject calls) ∧
      ((ofCalls calls).phase = .frozen ↔ ∃ call ∈ calls, call.freezes = true) ∧
      (registration.subject.isNamed = false →
        (ofCalls calls).enter registration = .error .emptyName) ∧
      (∀ id, registration.subject.isNamed = true → registration.identifier? = some id →
        Identifier.isValid id = false →
          (ofCalls calls).enter registration = .error (.invalidIdentifier id)) ∧
      (registration.isWellFormed = true →
        (ofCalls calls).held? registration.subject = some registration →
          (ofCalls calls).enter registration = .ok (ofCalls calls)) ∧
      (∀ existing, registration.isWellFormed = true →
        (ofCalls calls).held? registration.subject = some existing → existing ≠ registration →
          ∃ error, existing.Conflict registration error ∧
            (ofCalls calls).enter registration = .error error) ∧
      (registration.isWellFormed = true → (ofCalls calls).held? registration.subject = none →
        (ofCalls calls).phase = .frozen →
          (ofCalls calls).enter registration = .error (.frozen registration.subject)) ∧
      (registration.isWellFormed = true → (ofCalls calls).held? registration.subject = none →
        (ofCalls calls).phase = .populating → ∃ next,
          (ofCalls calls).enter registration = .ok next ∧ next.phase = .populating ∧
            (∀ later, (next.run later).held? registration.subject = some registration) ∧
            ∀ subject, subject ≠ registration.subject →
              next.held? subject = (ofCalls calls).held? subject) := by
  refine ⟨held?_ofCalls calls, phase_ofCalls_iff, ?_, ?_, ?_, ?_, ?_, ?_⟩
  · exact fun hunnamed => enter_eq_iff.mpr (.unnamed hunnamed)
  · exact fun id hnamed hid hinvalid => enter_eq_iff.mpr (.invalid hnamed hid hinvalid)
  · exact fun hwell hheld => enter_eq_iff.mpr (.repeated hwell hheld)
  · intro existing hwell hheld hne
    obtain ⟨error, hconflict⟩ := Registration.exists_conflict (subject_of_held? hheld)
    exact ⟨error, hconflict, enter_eq_iff.mpr (.differing hwell hheld hne hconflict)⟩
  · exact fun hwell hheld hphase => enter_eq_iff.mpr (.frozen hwell hheld hphase)
  · exact fun hwell hheld hphase => ⟨_, held_of_new hwell hheld hphase⟩

/-- The frozen registry of the task gives each of its answers to some registration, and the empty
registry takes a new one. -/
theorem answer_of_history_taskHistory :
    (ofCalls taskHistory).enter (.field "" "effort" {}) = .error .emptyName ∧
      (ofCalls taskHistory).enter (.type "Task" "Task") = .error (.invalidIdentifier "Task") ∧
      (ofCalls taskHistory).enter (.type "Task" "cw:Task") = .ok (ofCalls taskHistory) ∧
      (∃ error, (Registration.type "Task" "cw:Task").Conflict (.type "Task" "cw:Work") error ∧
        (ofCalls taskHistory).enter (.type "Task" "cw:Work") = .error error) ∧
      (ofCalls taskHistory).enter (.field "Task" "name" { unit := some "m" }) =
        .error (.frozen (.field "Task" "name")) ∧
      ∃ next, (ofCalls []).enter (.type "Task" "cw:Work") = .ok next ∧ next.phase = .populating ∧
        (∀ later, (next.run later).held? (.type "Task") = some (.type "Task" "cw:Work")) ∧
        ∀ subject, subject ≠ .type "Task" → next.held? subject = (ofCalls []).held? subject := by
  obtain ⟨-, -, hunnamed, -⟩ := answer_of_history taskHistory (.field "" "effort" {})
  obtain ⟨-, -, -, hinvalid, -⟩ := answer_of_history taskHistory (.type "Task" "Task")
  obtain ⟨-, -, -, -, hrepeated, -⟩ := answer_of_history taskHistory (.type "Task" "cw:Task")
  obtain ⟨-, -, -, -, -, hdiffering, -⟩ := answer_of_history taskHistory (.type "Task" "cw:Work")
  obtain ⟨-, -, -, -, -, -, hfrozen, -⟩ :=
    answer_of_history taskHistory (.field "Task" "name" { unit := some "m" })
  obtain ⟨-, -, -, -, -, -, -, hnew⟩ := answer_of_history [] (.type "Task" "cw:Work")
  refine ⟨hunnamed ?_, hinvalid _ ?_ rfl ?_, hrepeated ?_ ?_, hdiffering _ ?_ ?_ ?_,
    hfrozen ?_ ?_ ?_, hnew ?_ ?_ ?_⟩
  all_goals decide +kernel

/-- A registration that differs from what a frozen registry holds is not refused as one that comes
too late. -/
theorem conflict_while_frozen :
    ¬ ∀ (calls : List Call) (registration existing : Registration),
      registration.isWellFormed = true → (ofCalls calls).phase = .frozen →
      (ofCalls calls).held? registration.subject = some existing → existing ≠ registration →
      (ofCalls calls).enter registration = .error (.frozen registration.subject) := by
  intro hclaim
  have hlate := hclaim taskHistory (.type "Task" "cw:Work") (.type "Task" "cw:Task")
    (by decide +kernel) (by decide +kernel) (by decide +kernel) (by decide +kernel)
  have hconflict : (ofCalls taskHistory).enter (.type "Task" "cw:Work") =
      .error (.conflictingType "Task" "cw:Task" "cw:Work") := by decide +kernel
  rw [hconflict] at hlate
  cases hlate

end LinkedSchema.Registry
