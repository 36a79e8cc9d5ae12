import LinkedSchema.Proofs.Introspection.References

/-!
# What a walk has done

A walk from a root comes through a sequence of situations: visits, steps that are left, models
finished so far. In each of them the visited types are reachable from the root. What is finished
is reachable, is finished once, and has each of its references settled: the target was finished
before, or the reference closed a loop that was let pass. A walk that succeeds keeps this and
settles the steps it was given.
-/

namespace LinkedSchema

namespace Walk

variable {catalog : Catalog} {root : String}

/-- The situations through which a walk from a root comes, along the recursion of the walk. -/
inductive Comes (catalog : Catalog) (root : String) :
    List Visit → List Step → List Model → Prop
  | start {model : Model} : catalog.get? root = some model →
    Comes catalog root [⟨root, false⟩] model.steps []
  | pass {stack : List Visit} {reference : Reference} {steps : List Step}
    {finished : List Model} : Comes catalog root stack (.reference reference :: steps) finished →
    reference.target ∈ stack.map (·.name) → isBroken stack reference = true →
    Comes catalog root stack steps finished
  | skip {stack : List Visit} {reference : Reference} {steps : List Step}
    {finished : List Model} : Comes catalog root stack (.reference reference :: steps) finished →
    reference.target ∉ stack.map (·.name) →
    finished.any (·.name = reference.target) = true → Comes catalog root stack steps finished
  | descend {stack : List Visit} {reference : Reference} {steps : List Step}
    {finished : List Model} {model : Model} :
    Comes catalog root stack (.reference reference :: steps) finished →
    reference.target ∉ stack.map (·.name) →
    ¬ finished.any (·.name = reference.target) = true →
    catalog.get? reference.target = some model →
    Comes catalog root (⟨reference.target, reference.indirect⟩ :: stack) model.steps finished
  | ascend {stack : List Visit} {reference : Reference} {steps : List Step}
    {finished inner : List Model} {model : Model} :
    Comes catalog root stack (.reference reference :: steps) finished →
    reference.target ∉ stack.map (·.name) →
    ¬ finished.any (·.name = reference.target) = true →
    catalog.get? reference.target = some model →
    walk catalog (⟨reference.target, reference.indirect⟩ :: stack) model.steps finished =
      .ok inner →
    Comes catalog root stack steps (inner ++ [model])

/-- The steps that are left belong to the latest visited type. -/
theorem Comes.exists_visited {stack : List Visit} {steps : List Step} {finished : List Model}
    (h : Comes catalog root stack steps finished) :
    ∃ visit rest model, stack = visit :: rest ∧ catalog.get? visit.name = some model ∧
      ∀ step ∈ steps, step ∈ model.steps := by
  induction h with
  | start hmodel => exact ⟨_, _, _, rfl, hmodel, fun step h => h⟩
  | descend _ _ _ hmodel _ => exact ⟨_, _, _, rfl, hmodel, fun step h => h⟩
  | pass _ _ _ ih | skip _ _ _ ih | ascend _ _ _ _ _ ih =>
    obtain ⟨visit, rest, model, hstack, hmodel, hsteps⟩ := ih
    exact ⟨visit, rest, model, hstack, hmodel,
      fun step h => hsteps step (List.mem_cons_of_mem _ h)⟩

/-- A reference that a walk meets is one of the type that it visits last. -/
theorem Comes.refers {stack : List Visit} {reference : Reference} {steps : List Step}
    {finished : List Model}
    (h : Comes catalog root stack (.reference reference :: steps) finished) :
    (∃ visit rest, stack = visit :: rest ∧ reference.referrer = visit.name) ∧
      catalog.Refers reference.referrer reference.target ∧
      (reference.indirect = false →
        catalog.RefersDirectly reference.referrer reference.target) := by
  obtain ⟨visit, rest, model, rfl, hmodel, hsteps⟩ := h.exists_visited
  have hname := Catalog.name_of_get? hmodel
  rw [← hname] at hmodel
  obtain ⟨hreferrer, hrefers⟩ := Model.refers_of_mem_steps hmodel (hsteps _ List.mem_cons_self)
  rw [hreferrer]
  exact ⟨⟨visit, rest, rfl, hname⟩, hrefers⟩

/-- All visited types are reachable from the root. -/
theorem Comes.reaches {stack : List Visit} {steps : List Step} {finished : List Model}
    (h : Comes catalog root stack steps finished) :
    ∀ name ∈ stack.map (·.name), catalog.Reaches root name := by
  induction h with
  | start _ =>
    intro name hname
    have heq : name = root := by simpa using hname
    subst heq
    exact .refl
  | pass _ _ _ ih | skip _ _ _ ih | ascend _ _ _ _ _ ih => exact ih
  | descend hcomes _ _ _ ih =>
    intro name hname
    rcases List.mem_cons.mp hname with rfl | hname
    · obtain ⟨⟨visit, rest, rfl, hreferrer⟩, hrefers, -⟩ := hcomes.refers
      exact (ih _ (by simp [hreferrer])).tail hrefers
    · exact ih name hname

/-- A walk from the root meets a reference back to a type that it is visiting, and goes on. -/
def LetsPass (catalog : Catalog) (root : String) (reference : Reference) : Prop :=
  ∃ stack steps finished, Comes catalog root stack (.reference reference :: steps) finished ∧
    reference.target ∈ stack.map (·.name) ∧ isBroken stack reference = true

/-- A step is a reference whose target is finished, or is being visited and was let pass. -/
def Met (catalog : Catalog) (root : String) (stack : List Visit) (finished : List Model)
    (step : Step) : Prop :=
  ∃ reference, step = .reference reference ∧
    (reference.target ∈ finished.map (·.name) ∨
      LetsPass catalog root reference ∧ reference.target ∈ stack.map (·.name))

/-- A step of a finished model is a reference whose target was finished before the model, or was
let pass and is visited or finished by now. -/
def Settled (catalog : Catalog) (root : String) (stack : List Visit) (before finished : List Model)
    (step : Step) : Prop :=
  ∃ reference, step = .reference reference ∧
    (reference.target ∈ before.map (·.name) ∨
      LetsPass catalog root reference ∧
        (reference.target ∈ stack.map (·.name) ∨ reference.target ∈ finished.map (·.name)))

/-- What holds of the finished models while a walk goes on. -/
structure Progress (catalog : Catalog) (root : String) (stack : List Visit)
    (finished : List Model) : Prop where
  defined : ∀ model ∈ finished, catalog.get? model.name = some model
  reached : ∀ model ∈ finished, catalog.Reaches root model.name
  nodup : (finished.map (·.name)).Nodup
  apart : ∀ model ∈ finished, model.name ∉ stack.map (·.name)
  settled : ∀ before model after, finished = before ++ model :: after →
    ∀ step ∈ model.steps, Settled catalog root stack before finished step

/-- Before anything is finished there is nothing to hold. -/
theorem Progress.nil (stack : List Visit) : Progress catalog root stack [] where
  defined := by simp
  reached := by simp
  nodup := by simp
  apart := by simp
  settled := by simp

/-- Going down to a type that is not finished keeps what holds. -/
theorem Progress.descend {stack : List Visit} {finished : List Model}
    (h : Progress catalog root stack finished) {visit : Visit}
    (hnew : ¬ finished.any (·.name = visit.name) = true) :
    Progress catalog root (visit :: stack) finished where
  defined := h.defined
  reached := h.reached
  nodup := h.nodup
  apart := by
    intro model hmodel hmem
    rcases List.mem_cons.mp hmem with heq | hmem
    · exact hnew (List.any_eq_true.mpr ⟨model, hmodel, by simpa using heq⟩)
    · exact h.apart model hmodel hmem
  settled := by
    intro before model after heq step hstep
    obtain ⟨reference, rfl, htarget⟩ := h.settled before model after heq step hstep
    refine ⟨reference, rfl, htarget.imp id ?_⟩
    exact fun ⟨hpass, htarget⟩ => ⟨hpass, htarget.imp (List.mem_cons_of_mem _) id⟩

/-- When the type visited last is finished, what was visited or finished is so afterwards. -/
theorem mem_of_ascend {stack : List Visit} {visit : Visit} {finished : List Model} {model : Model}
    (hname : model.name = visit.name) {target : String}
    (h : target ∈ (visit :: stack).map (·.name) ∨ target ∈ finished.map (·.name)) :
    target ∈ stack.map (·.name) ∨ target ∈ (finished ++ [model]).map (·.name) := by
  simp only [List.map_cons, List.mem_cons, List.map_append, List.mem_append, List.map_nil,
    List.not_mem_nil, or_false, hname] at h ⊢
  tauto

/-- When the type visited last is finished, its steps count among the settled ones. -/
theorem settled_ascend {stack : List Visit} {visit : Visit} {finished : List Model} {model : Model}
    (hname : model.name = visit.name)
    (hsettled : ∀ before model after, finished = before ++ model :: after →
      ∀ step ∈ model.steps, Settled catalog root (visit :: stack) before finished step)
    (hmet : ∀ step ∈ model.steps, Met catalog root (visit :: stack) finished step) :
    ∀ before other after, finished ++ [model] = before ++ other :: after →
      ∀ step ∈ other.steps, Settled catalog root stack before (finished ++ [model]) step := by
  intro before other after heq step hstep
  rcases List.eq_nil_or_concat' after with rfl | ⟨after, last, rfl⟩
  · obtain ⟨rfl, heq⟩ := List.append_inj' heq rfl
    obtain rfl : model = other := by simpa using heq
    obtain ⟨reference, rfl, htarget⟩ := hmet step hstep
    refine ⟨reference, rfl, htarget.imp id ?_⟩
    exact fun ⟨hpass, hmem⟩ => ⟨hpass, mem_of_ascend hname (.inl hmem)⟩
  · rw [← List.cons_append, ← List.append_assoc] at heq
    obtain ⟨rfl, -⟩ := List.append_inj' heq rfl
    obtain ⟨reference, rfl, htarget⟩ := hsettled before other after rfl step hstep
    refine ⟨reference, rfl, htarget.imp id ?_⟩
    exact fun ⟨hpass, hmem⟩ => ⟨hpass, mem_of_ascend hname hmem⟩

/-- Finishing the type visited last, all of whose steps are met, keeps what holds. -/
theorem Progress.ascend {stack : List Visit} {visit : Visit} {finished : List Model}
    (h : Progress catalog root (visit :: stack) finished) {model : Model}
    (hmodel : catalog.get? visit.name = some model) (hreach : catalog.Reaches root visit.name)
    (hstack : visit.name ∉ stack.map (·.name))
    (hmet : ∀ step ∈ model.steps, Met catalog root (visit :: stack) finished step) :
    Progress catalog root stack (finished ++ [model]) := by
  have hname := Catalog.name_of_get? hmodel
  refine ⟨?_, ?_, ?_, ?_, settled_ascend hname h.settled hmet⟩
  · intro other hother
    rcases List.mem_append.mp hother with hother | hother
    · exact h.defined other hother
    · obtain rfl := List.mem_singleton.mp hother
      rwa [hname]
  · intro other hother
    rcases List.mem_append.mp hother with hother | hother
    · exact h.reached other hother
    · obtain rfl := List.mem_singleton.mp hother
      rwa [hname]
  · rw [List.map_append, List.nodup_append]
    refine ⟨h.nodup, by simp, ?_⟩
    intro name hold other hother heq
    obtain ⟨older, holder, rfl⟩ := List.mem_map.mp hold
    have hlast : other = visit.name := by simpa [hname] using hother
    exact h.apart older holder (by simp [heq, hlast])
  · intro other hother hmem
    rcases List.mem_append.mp hother with hother | hother
    · exact h.apart other hother (List.mem_cons_of_mem _ hmem)
    · obtain rfl := List.mem_singleton.mp hother
      exact hstack (hname ▸ hmem)

/-- A successful walk from a situation that comes up keeps what holds of the finished models, adds
to them at the end, and meets all steps that were left. -/
theorem progress_of_walk {stack : List Visit} {steps : List Step} {finished reached : List Model}
    (hrun : walk catalog stack steps finished = .ok reached)
    (hcomes : Comes catalog root stack steps finished)
    (hprogress : Progress catalog root stack finished) :
    Progress catalog root stack reached ∧ finished <+: reached ∧
      ∀ step ∈ steps, Met catalog root stack reached step := by
  fun_induction walk catalog stack steps finished generalizing reached with
  | case1 stack finished =>
    cases hrun
    exact ⟨hprogress, List.prefix_rfl, by simp⟩
  | case2 => cases hrun
  | case3 stack finished reference steps hstack hbroken ih =>
    obtain ⟨hprogress, hgrows, hmet⟩ := ih hrun (hcomes.pass hstack hbroken) hprogress
    refine ⟨hprogress, hgrows, ?_⟩
    intro step hstep
    rcases List.mem_cons.mp hstep with rfl | hstep
    · exact ⟨reference, rfl, .inr ⟨⟨_, _, _, hcomes, hstack, hbroken⟩, hstack⟩⟩
    · exact hmet step hstep
  | case4 => cases hrun
  | case5 stack finished reference steps hstack hfinished ih =>
    obtain ⟨hprogress, hgrows, hmet⟩ := ih hrun (hcomes.skip hstack hfinished) hprogress
    refine ⟨hprogress, hgrows, ?_⟩
    intro step hstep
    rcases List.mem_cons.mp hstep with rfl | hstep
    · obtain ⟨model, hmodel, hname⟩ := List.any_eq_true.mp hfinished
      have hmem : reference.target ∈ finished.map (·.name) :=
        List.mem_map.mpr ⟨model, hmodel, by simpa using hname⟩
      exact ⟨reference, rfl, .inl ((hgrows.map _).subset hmem)⟩
    · exact hmet step hstep
  | case6 => cases hrun
  | case7 => cases hrun
  | case8 stack finished reference steps hstack hfinished model hmodel visit inner hinner ih1 =>
    rename_i ih2
    have hdown := hcomes.descend hstack hfinished hmodel
    obtain ⟨hbelow, hgrown, hall⟩ := ih1 hinner hdown (hprogress.descend hfinished)
    have hreach := hdown.reaches reference.target (by simp)
    have hback := hbelow.ascend hmodel hreach hstack hall
    obtain ⟨hprogress, hgrows, hmet⟩ :=
      ih2 hrun (hcomes.ascend hstack hfinished hmodel hinner) hback
    refine ⟨hprogress, hgrown.trans ((List.prefix_append _ _).trans hgrows), ?_⟩
    intro step hstep
    rcases List.mem_cons.mp hstep with rfl | hstep
    · have hname := Catalog.name_of_get? hmodel
      have hmem : reference.target ∈ (inner ++ [model]).map (·.name) := by simp [hname]
      exact ⟨reference, rfl, .inl ((hgrows.map _).subset hmem)⟩
    · exact hmet step hstep

end Walk

end LinkedSchema
