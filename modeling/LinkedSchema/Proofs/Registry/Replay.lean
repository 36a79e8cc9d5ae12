import LinkedSchema.Proofs.Outcome
import LinkedSchema.Proofs.Registry.Registration

/-!
# Registrations in any order

Registrations that succeed one after another leave a registry that holds exactly these, beside what
it held before. Whether they succeed does not depend on their order: each of them is well-formed, and
none differs from another one of its subject or from what is held of it. What is held may therefore
be registered again, frozen or not, and nothing comes of it.
-/

namespace LinkedSchema.Registry

variable {registry next : Registry} {registration held : Registration} {subject : Subject}
  {registrations : List Registration}

/-- Registers one after another, up to the first registration that is refused. -/
def enterAll (registry : Registry) (registrations : List Registration) :
    Except RegistrationError Registry :=
  registrations.foldlM enter registry

/-- The first registration is entered before the others. -/
theorem enterAll_cons :
    registry.enterAll (registration :: registrations) =
      registry.enter registration >>= fun next => next.enterAll registrations :=
  List.foldlM_cons

/-- A registration succeeds if it is well-formed and either held already or put in where nothing is
held of its subject. -/
theorem enter_eq_ok_iff :
    registry.enter registration = .ok next ↔ registration.isWellFormed = true ∧
      ((registry.held? registration.subject = some registration ∧ next = registry) ∨
        (registry.held? registration.subject = none ∧ registry.phase = .populating ∧
          next = registry.put registration)) := by
  rw [enter_eq_iff]
  constructor
  · intro h
    cases h with
    | repeated hwell hheld => exact ⟨hwell, .inl ⟨hheld, rfl⟩⟩
    | new hwell hheld hphase => exact ⟨hwell, .inr ⟨hheld, hphase, rfl⟩⟩
  · rintro ⟨hwell, ⟨hheld, rfl⟩ | ⟨hheld, hphase, rfl⟩⟩
    · exact .repeated hwell hheld
    · exact .new hwell hheld hphase

/-- A registration that succeeds is held afterwards, beside what was held before. -/
theorem held?_of_enter (h : registry.enter registration = .ok next) :
    next.held? subject = some held ↔
      registry.held? subject = some held ∨ held = registration ∧ held.subject = subject := by
  obtain ⟨-, ⟨hheld, rfl⟩ | ⟨hnone, -, rfl⟩⟩ := enter_eq_ok_iff.mp h
  · constructor
    · exact .inl
    · rintro (hbefore | ⟨rfl, rfl⟩)
      · exact hbefore
      · exact hheld
  · rw [held?_put]
    split
    · next hsubject =>
      subst hsubject
      constructor
      · rintro ⟨⟩
        exact .inr ⟨rfl, rfl⟩
      · rintro (hbefore | ⟨rfl, -⟩)
        · cases hnone.symm.trans hbefore
        · rfl
    · next hsubject =>
      constructor
      · exact .inl
      · rintro (hbefore | ⟨rfl, hother⟩)
        · exact hbefore
        · exact absurd hother hsubject

/-- Entering a registration does not freeze a registry. -/
theorem phase_of_enter (h : registry.enter registration = .ok next) :
    next.phase = registry.phase := by
  obtain ⟨-, ⟨-, rfl⟩ | ⟨-, -, rfl⟩⟩ := enter_eq_ok_iff.mp h
  · rfl
  · exact phase_put registry registration

/-- After registrations that succeed exactly these are held, beside what was held before. -/
theorem held?_of_enterAll (h : registry.enterAll registrations = .ok next) :
    next.held? subject = some held ↔
      registry.held? subject = some held ∨ held ∈ registrations ∧ held.subject = subject := by
  induction registrations generalizing registry with
  | nil =>
    obtain rfl : registry = next := Except.ok.inj h
    simp
  | cons first registrations ih =>
    rw [enterAll_cons] at h
    obtain ⟨middle, hfirst, hrest⟩ := Outcome.bind_eq_ok_iff.mp h
    rw [ih hrest, held?_of_enter hfirst, List.mem_cons, or_and_right, or_assoc]

/-- Nor does entering several. -/
theorem phase_of_enterAll (h : registry.enterAll registrations = .ok next) :
    next.phase = registry.phase := by
  induction registrations generalizing registry with
  | nil =>
    obtain rfl : registry = next := Except.ok.inj h
    rfl
  | cons first registrations ih =>
    rw [enterAll_cons] at h
    obtain ⟨middle, hfirst, hrest⟩ := Outcome.bind_eq_ok_iff.mp h
    rw [ih hrest, phase_of_enter hfirst]

/-- Registrations that are well-formed and compatible with each other and with what is held. -/
def Admits (registry : Registry) (registrations : List Registration) : Prop :=
  ∀ registration ∈ registrations, registration.isWellFormed = true ∧
    (∀ existing, registry.held? registration.subject = some existing → existing = registration) ∧
    ∀ other ∈ registrations, other.subject = registration.subject → other = registration

/-- A registry admits a further registration in front if it takes this one and then admits the
others. -/
theorem admits_cons_iff (h : registry.enter registration = .ok next) :
    registry.Admits (registration :: registrations) ↔ next.Admits registrations := by
  have hheld : next.held? registration.subject = some registration :=
    (held?_of_enter h).mpr (.inr ⟨rfl, rfl⟩)
  constructor
  · intro hadmits other hother
    obtain ⟨hwell, hexisting, hothers⟩ := hadmits other (List.mem_cons_of_mem _ hother)
    refine ⟨hwell, ?_, fun third hthird => hothers third (List.mem_cons_of_mem _ hthird)⟩
    intro existing hfound
    rcases (held?_of_enter h).mp hfound with hbefore | ⟨rfl, hsubject⟩
    · exact hexisting existing hbefore
    · exact hothers existing List.mem_cons_self hsubject
  · intro hadmits
    have hfirst : ∀ other ∈ registrations, other.subject = registration.subject →
        registration = other := by
      intro other hother hsubject
      exact (hadmits other hother).2.1 registration (hsubject ▸ hheld)
    intro other hother
    rcases List.mem_cons.mp hother with rfl | hother
    · obtain ⟨hwell, hstate⟩ := enter_eq_ok_iff.mp h
      refine ⟨hwell, ?_, ?_⟩
      · intro existing hexisting
        have hkept := (held?_of_enter h).mpr (.inl hexisting)
        exact Option.some.inj (hkept.symm.trans hheld)
      · exact List.forall_mem_cons.mpr
          ⟨fun _ => rfl, fun third hthird hsubject => (hfirst third hthird hsubject).symm⟩
    · obtain ⟨hwell, hexisting, hothers⟩ := hadmits other hother
      refine ⟨hwell, ?_, List.forall_mem_cons.mpr ⟨?_, hothers⟩⟩
      · intro existing hbefore
        exact hexisting existing ((held?_of_enter h).mpr (.inl hbefore))
      · exact fun hsubject => hfirst other hother hsubject.symm

/-- Registrations succeed one after another in a registry that is not frozen exactly if it admits
them, which does not depend on their order. -/
theorem exists_enterAll_iff (hphase : registry.phase = .populating) :
    (∃ next, registry.enterAll registrations = .ok next) ↔ registry.Admits registrations := by
  induction registrations generalizing registry with
  | nil => simp [enterAll, Admits, pure, Except.pure]
  | cons first registrations ih =>
    simp only [enterAll_cons, Outcome.bind_eq_ok_iff]
    constructor
    · rintro ⟨next, middle, hfirst, hrest⟩
      have hmiddle := (phase_of_enter hfirst).trans hphase
      exact (admits_cons_iff hfirst).mpr ((ih hmiddle).mp ⟨next, hrest⟩)
    · intro hadmits
      obtain ⟨hwell, hexisting, -⟩ := hadmits first List.mem_cons_self
      obtain ⟨middle, hfirst⟩ : ∃ middle, registry.enter first = .ok middle := by
        cases hheld : registry.held? first.subject with
        | none => exact ⟨_, enter_eq_ok_iff.mpr ⟨hwell, .inr ⟨hheld, hphase, rfl⟩⟩⟩
        | some existing =>
          rw [hexisting existing hheld] at hheld
          exact ⟨_, enter_eq_ok_iff.mpr ⟨hwell, .inl ⟨hheld, rfl⟩⟩⟩
      have hmiddle := (phase_of_enter hfirst).trans hphase
      obtain ⟨next, hrest⟩ := (ih hmiddle).mpr ((admits_cons_iff hfirst).mp hadmits)
      exact ⟨next, middle, hfirst, hrest⟩

/-- Registrations that are held already succeed, frozen or not, and change nothing. -/
theorem enterAll_of_held (h : ∀ registration ∈ registrations, registration.isWellFormed = true ∧
      registry.held? registration.subject = some registration) :
    registry.enterAll registrations = .ok registry := by
  induction registrations with
  | nil => rfl
  | cons first registrations ih =>
    obtain ⟨⟨hwell, hheld⟩, hrest⟩ := List.forall_mem_cons.mp h
    rw [enterAll_cons, enter_eq_ok_iff.mpr ⟨hwell, .inl ⟨hheld, rfl⟩⟩]
    exact ih hrest

/-- Registries that hold the same answer every look-up in the same way. -/
theorem lookups_eq_of_held {other : Registry} (h : ∀ subject held,
      other.held? subject = some held ↔ registry.held? subject = some held) :
    (∀ type field, other.field? type field = registry.field? type field) ∧
      ∀ type, other.classId? type = registry.classId? type := by
  constructor
  · intro type field
    ext metadata
    rw [← held?_field_iff, h, held?_field_iff]
  · intro type
    ext id
    rw [← held?_type_iff, h, held?_type_iff]

/-- Registrations that all succeed one after another in a new registry do so in any other order, with
the same result for every look-up. Any of them may be replayed afterwards, in any order and as often
as one likes: each is accepted again, whether or not the registry has been frozen, and changes
nothing. -/
theorem registrations_commute (h : (∅ : Registry).enterAll registrations = .ok registry) :
    (∀ reordered : List Registration, reordered.Perm registrations →
        ∃ other, (∅ : Registry).enterAll reordered = .ok other ∧ other.phase = registry.phase ∧
          (∀ type field, other.field? type field = registry.field? type field) ∧
          ∀ type, other.classId? type = registry.classId? type) ∧
      ∀ replayed : List Registration, (∀ again ∈ replayed, again ∈ registrations) →
        registry.enterAll replayed = .ok registry ∧
          registry.freeze.enterAll replayed = .ok registry.freeze := by
  have hadmits := (exists_enterAll_iff rfl).mp ⟨registry, h⟩
  refine ⟨?_, ?_⟩
  · intro reordered hperm
    have hreordered : (∅ : Registry).Admits reordered := by
      simpa only [Admits, hperm.mem_iff] using hadmits
    obtain ⟨other, hother⟩ := (exists_enterAll_iff rfl).mpr hreordered
    refine ⟨other, hother, ?_, lookups_eq_of_held ?_⟩
    · rw [phase_of_enterAll hother, phase_of_enterAll h]
    · intro subject held
      rw [held?_of_enterAll hother, held?_of_enterAll h, hperm.mem_iff]
  · intro replayed hreplayed
    have hheld : ∀ again ∈ replayed, again.isWellFormed = true ∧
        registry.held? again.subject = some again := by
      intro again hagain
      exact ⟨(hadmits again (hreplayed again hagain)).1,
        (held?_of_enterAll h).mpr (.inr ⟨hreplayed again hagain, rfl⟩)⟩
    -- Freezing changes no look-up, so the same registrations are held by the frozen registry.
    have hfrozen : ∀ again ∈ replayed, again.isWellFormed = true ∧
        registry.freeze.held? again.subject = some again := hheld
    exact ⟨enterAll_of_held hheld, enterAll_of_held hfrozen⟩

/-- A field of a task, the class of the task, and the same field once more. -/
def taskRegistrations : List Registration :=
  [.field "Task" "effort" { id := some "cw:effort", unit := some "h" }, .type "Task" "cw:Task",
    .field "Task" "effort" { id := some "cw:effort", unit := some "h" }]

/-- The registrations of a task may be entered backwards, and once more also after the registry is
frozen. -/
theorem registrations_commute_task :
    ∃ registry, (∅ : Registry).enterAll taskRegistrations = .ok registry ∧
      (∃ other, (∅ : Registry).enterAll taskRegistrations.reverse = .ok other ∧
        (∀ type field, other.field? type field = registry.field? type field) ∧
        ∀ type, other.classId? type = registry.classId? type) ∧
      registry.enterAll [.type "Task" "cw:Task", .type "Task" "cw:Task"] = .ok registry ∧
      registry.freeze.enterAll taskRegistrations.reverse = .ok registry.freeze := by
  have hok : ((∅ : Registry).enterAll taskRegistrations).isOk = true := by decide +kernel
  obtain ⟨registry, h⟩ := Outcome.exists_of_isOk hok
  obtain ⟨hreordered, hreplayed⟩ := registrations_commute h
  obtain ⟨other, hother, -, hlookups⟩ := hreordered _ (List.reverse_perm taskRegistrations)
  exact ⟨registry, h, ⟨other, hother, hlookups⟩, (hreplayed _ (by decide)).1,
    (hreplayed _ (by decide)).2⟩

end LinkedSchema.Registry
