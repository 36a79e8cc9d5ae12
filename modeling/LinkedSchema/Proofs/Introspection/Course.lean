import LinkedSchema.Introspection
import LinkedSchema.Proofs.Outcome
import Mathlib

/-!
# The course of an introspection

A walk comes through a moment for each step that it follows, and one for each model whose steps are
at an end. It starts only on models that are neither visited nor finished, and when it succeeds it
has finished those on which it has started and no others. So the visited types are different defined
types at every moment, none of them is finished, and the walk starts on each model once. The moments
are therefore no more than the steps of the models on which it has started allow, and every
introspection comes to an end.
-/

namespace LinkedSchema

/-- Different names of models in a catalog are no more than there are. -/
theorem Catalog.length_le_of_nodup {catalog : Catalog} {names : List String}
    (hnodup : names.Nodup) (hdefined : names ⊆ catalog.names) : names.length ≤ catalog.size := by
  have hsize : catalog.names.length = catalog.size := List.length_map _
  exact hsize ▸ (hnodup.subperm hdefined).length_le

namespace Walk

/-- Where a walk is: the visits that have led there, the latest first, and the models finished so
far. -/
structure Moment where
  stack : List Visit
  finished : List Model

/-- The types that are visited at a moment, the latest first. -/
def Moment.visited (moment : Moment) : List String :=
  moment.stack.map (·.name)

/-- At a moment different defined types are visited, and none of them is finished. -/
structure Moment.IsProper (catalog : Catalog) (moment : Moment) : Prop where
  nodup : moment.visited.Nodup
  defined : moment.visited ⊆ catalog.names
  apart : ∀ name ∈ moment.visited, name ∉ moment.finished.map (·.name)

/-- At first the root alone is visited, and nothing is finished. -/
theorem Moment.IsProper.start {catalog : Catalog} {root : String} {model : Model}
    (hmodel : catalog.get? root = some model) :
    Moment.IsProper catalog ⟨[⟨root, false⟩], []⟩ where
  nodup := List.nodup_singleton root
  defined := by simpa [Moment.visited] using Catalog.mem_names_iff.mpr ⟨model, hmodel⟩
  apart := by simp

/-- At last nothing is visited any more. -/
theorem Moment.IsProper.last {catalog : Catalog} (finished : List Model) :
    Moment.IsProper catalog ⟨[], finished⟩ where
  nodup := List.nodup_nil
  defined := List.nil_subset _
  apart := by simp [Moment.visited]

/-- A type is new to a walk: it is neither visited nor finished. -/
structure IsNew (stack : List Visit) (finished : List Model) (name : String) : Prop where
  unvisited : name ∉ stack.map (·.name)
  unfinished : name ∉ finished.map (·.name)

/-- The runs of a walk, each with the moments through which it comes, the models on whose steps it
starts, and its outcome. -/
inductive Run (catalog : Catalog) : List Visit → List Step → List Model → List Moment →
    List Model → Except (Interruption IntrospectionError (List Model)) (List Model) → Prop
  | done {stack : List Visit} {finished : List Model} :
    Run catalog stack [] finished [⟨stack, finished⟩] [] (.ok finished)
  | repeated {stack : List Visit} {type field : String} {steps : List Step}
    {finished : List Model} :
    Run catalog stack (.repeated type field :: steps) finished [⟨stack, finished⟩] []
      (.error ⟨.duplicateField type field, finished⟩)
  | cycle {stack : List Visit} {reference : Reference} {steps : List Step}
    {finished : List Model} :
    reference.target ∈ stack.map (·.name) → isBroken stack reference = false →
    Run catalog stack (.reference reference :: steps) finished [⟨stack, finished⟩] []
      (.error ⟨.cycle (loop stack reference.target), finished⟩)
  | pass {stack : List Visit} {reference : Reference} {steps : List Step}
    {finished : List Model} {moments : List Moment} {started : List Model}
    {outcome : Except (Interruption IntrospectionError (List Model)) (List Model)} :
    reference.target ∈ stack.map (·.name) → isBroken stack reference = true →
    Run catalog stack steps finished moments started outcome →
    Run catalog stack (.reference reference :: steps) finished (⟨stack, finished⟩ :: moments)
      started outcome
  | skip {stack : List Visit} {reference : Reference} {steps : List Step}
    {finished : List Model} {moments : List Moment} {started : List Model}
    {outcome : Except (Interruption IntrospectionError (List Model)) (List Model)} :
    reference.target ∉ stack.map (·.name) → reference.target ∈ finished.map (·.name) →
    Run catalog stack steps finished moments started outcome →
    Run catalog stack (.reference reference :: steps) finished (⟨stack, finished⟩ :: moments)
      started outcome
  | undefined {stack : List Visit} {reference : Reference} {steps : List Step}
    {finished : List Model} :
    IsNew stack finished reference.target → catalog.get? reference.target = none →
    Run catalog stack (.reference reference :: steps) finished [⟨stack, finished⟩] []
      (.error ⟨.unknownType reference.target reference.referrer reference.field, finished⟩)
  | abandon {stack : List Visit} {reference : Reference} {steps : List Step}
    {finished : List Model} {model : Model} {moments : List Moment} {started : List Model}
    {interruption : Interruption IntrospectionError (List Model)} :
    IsNew stack finished reference.target → catalog.get? reference.target = some model →
    Run catalog (⟨reference.target, reference.indirect⟩ :: stack) model.steps finished moments
      started (.error interruption) →
    Run catalog stack (.reference reference :: steps) finished (⟨stack, finished⟩ :: moments)
      (model :: started) (.error interruption)
  | descend {stack : List Visit} {reference : Reference} {steps : List Step}
    {finished inner : List Model} {model : Model} {moments later : List Moment}
    {started more : List Model}
    {outcome : Except (Interruption IntrospectionError (List Model)) (List Model)} :
    IsNew stack finished reference.target → catalog.get? reference.target = some model →
    Run catalog (⟨reference.target, reference.indirect⟩ :: stack) model.steps finished moments
      started (.ok inner) →
    Run catalog stack steps (inner ++ [model]) later more outcome →
    Run catalog stack (.reference reference :: steps) finished
      (⟨stack, finished⟩ :: (moments ++ later)) (model :: (started ++ more)) outcome

variable {catalog : Catalog} {stack : List Visit} {steps : List Step} {finished : List Model}
  {moments : List Moment} {started : List Model}
  {outcome : Except (Interruption IntrospectionError (List Model)) (List Model)}

/-- A type is looked for among the finished models by its name. -/
theorem any_name_iff {name : String} :
    finished.any (·.name = name) = true ↔ name ∈ finished.map (·.name) := by
  simp

/-- A reference to a new type that is not defined ends the walk. -/
theorem walk_of_undefined {reference : Reference} (hnew : IsNew stack finished reference.target)
    (hundefined : catalog.get? reference.target = none) :
    walk catalog stack (.reference reference :: steps) finished =
      .error ⟨.unknownType reference.target reference.referrer reference.field, finished⟩ := by
  rw [walk, dif_neg hnew.unvisited, if_neg (mt any_name_iff.mp hnew.unfinished)]
  split
  · rfl
  · next model hmodel =>
    rw [hundefined] at hmodel
    cases hmodel

/-- A new type is walked through first. When it is finished, the walk goes on. -/
theorem walk_of_new {reference : Reference} {model : Model}
    (hnew : IsNew stack finished reference.target)
    (hmodel : catalog.get? reference.target = some model) :
    walk catalog stack (.reference reference :: steps) finished =
      walk catalog (⟨reference.target, reference.indirect⟩ :: stack) model.steps finished >>=
        fun inner => walk catalog stack steps (inner ++ [model]) := by
  rw [walk, dif_neg hnew.unvisited, if_neg (mt any_name_iff.mp hnew.unfinished)]
  split
  · next hundefined =>
    rw [hundefined] at hmodel
    cases hmodel
  · next found hfound =>
    obtain rfl : model = found := Option.some.inj (hmodel.symm.trans hfound)
    dsimp only
    cases walk catalog (⟨reference.target, reference.indirect⟩ :: stack) model.steps finished <;>
      rfl

/-- Every walk is a run and so comes to an end. -/
theorem exists_run (catalog : Catalog) (stack : List Visit) (steps : List Step)
    (finished : List Model) :
    ∃ moments started, Run catalog stack steps finished moments started
      (walk catalog stack steps finished) := by
  fun_induction walk catalog stack steps finished with
  | case1 stack finished => exact ⟨_, _, .done⟩
  | case2 stack finished type field steps => exact ⟨_, _, .repeated⟩
  | case3 stack finished reference steps hstack hbroken ih =>
    obtain ⟨moments, started, hrun⟩ := ih
    exact ⟨_, _, .pass hstack hbroken hrun⟩
  | case4 stack finished reference steps hstack hbroken =>
    exact ⟨_, _, .cycle hstack (by simpa using hbroken)⟩
  | case5 stack finished reference steps hstack hfinished ih =>
    obtain ⟨moments, started, hrun⟩ := ih
    exact ⟨_, _, .skip hstack (any_name_iff.mp hfinished) hrun⟩
  | case6 stack finished reference steps hstack hfinished hundefined =>
    exact ⟨_, _, .undefined ⟨hstack, fun h => hfinished (any_name_iff.mpr h)⟩ hundefined⟩
  | case7 stack finished reference steps hstack hfinished model hmodel visit failed hinner ih =>
    obtain ⟨moments, started, hrun⟩ := ih
    rw [hinner] at hrun
    exact ⟨_, _, .abandon ⟨hstack, fun h => hfinished (any_name_iff.mpr h)⟩ hmodel hrun⟩
  | case8 stack finished reference steps hstack hfinished model hmodel visit inner hinner ihinner =>
    rename_i ih
    obtain ⟨moments, started, hrun⟩ := ihinner
    rw [hinner] at hrun
    obtain ⟨later, more, hrest⟩ := ih
    exact ⟨_, _, .descend ⟨hstack, fun h => hfinished (any_name_iff.mpr h)⟩ hmodel hrun hrest⟩

namespace Run

/-- A run has the outcome of the walk. -/
theorem eq_walk (h : Run catalog stack steps finished moments started outcome) :
    outcome = walk catalog stack steps finished := by
  induction h with
  | done => rw [walk]
  | repeated => rw [walk]
  | cycle hstack hbroken => rw [walk, dif_pos hstack, hbroken]; rfl
  | pass hstack hbroken _ ih => rw [walk, dif_pos hstack, if_pos hbroken, ih]
  | skip hstack hfinished _ ih =>
    rw [walk, dif_neg hstack, if_pos (any_name_iff.mpr hfinished), ih]
  | undefined hnew hundefined => rw [walk_of_undefined hnew hundefined]
  | abandon hnew hmodel _ ih =>
    rw [walk_of_new hnew hmodel, ← ih]
    rfl
  | descend hnew hmodel _ _ ihinner ih =>
    rw [walk_of_new hnew hmodel, ← ihinner, ih]
    rfl

/-- A run that succeeds has finished the models on which it has started, besides those that were
finished before. -/
theorem mem_reached_iff (h : Run catalog stack steps finished moments started outcome)
    {reached : List Model} (hok : outcome = .ok reached) {model : Model} :
    model ∈ reached ↔ model ∈ finished ∨ model ∈ started := by
  induction h generalizing reached with
  | done =>
    cases hok
    simp
  | repeated => cases hok
  | cycle => cases hok
  | pass _ _ _ ih => exact ih hok
  | skip _ _ _ ih => exact ih hok
  | undefined => cases hok
  | abandon => cases hok
  | descend _ _ _ _ ihinner ih =>
    rw [ih hok, List.mem_append, ihinner rfl, List.mem_singleton, List.mem_cons, List.mem_append]
    tauto

/-- The names of what a run that succeeds has finished. -/
theorem mem_names_reached_iff (h : Run catalog stack steps finished moments started outcome)
    {reached : List Model} (hok : outcome = .ok reached) {name : String} :
    name ∈ reached.map (·.name) ↔
      name ∈ finished.map (·.name) ∨ name ∈ started.map (·.name) := by
  simp only [List.mem_map, h.mem_reached_iff hok, or_and_right, exists_or]

/-- A run starts on defined models only, and only on models that are new when it begins. -/
theorem fresh (h : Run catalog stack steps finished moments started outcome) :
    ∀ model ∈ started, IsNew stack finished model.name ∧
      catalog.get? model.name = some model := by
  have hfirst : ∀ {stack finished name model}, IsNew stack finished name →
      catalog.get? name = some model →
      IsNew stack finished model.name ∧ catalog.get? model.name = some model := by
    intro stack finished name model hnew hmodel
    obtain rfl := Catalog.name_of_get? hmodel
    exact ⟨hnew, hmodel⟩
  have hbelow : ∀ {stack finished visit name}, IsNew (visit :: stack) finished name →
      IsNew stack finished name :=
    fun hnew => ⟨fun h => hnew.unvisited (List.mem_cons_of_mem _ h), hnew.unfinished⟩
  induction h with
  | done => simp
  | repeated => simp
  | cycle => simp
  | pass _ _ _ ih => exact ih
  | skip _ _ _ ih => exact ih
  | undefined => simp
  | abandon hnew hmodel _ ih =>
    intro model hstarted
    rcases List.mem_cons.mp hstarted with rfl | hstarted
    · exact hfirst hnew hmodel
    · obtain ⟨hinner, hdefined⟩ := ih model hstarted
      exact ⟨hbelow hinner, hdefined⟩
  | descend hnew hmodel hinner _ ihinner ih =>
    intro model hstarted
    rcases List.mem_cons.mp hstarted with rfl | hstarted
    · exact hfirst hnew hmodel
    · rcases List.mem_append.mp hstarted with hstarted | hstarted
      · obtain ⟨hbegun, hdefined⟩ := ihinner model hstarted
        exact ⟨hbelow hbegun, hdefined⟩
      · obtain ⟨hlater, hdefined⟩ := ih model hstarted
        refine ⟨⟨hlater.unvisited, fun hfinished => hlater.unfinished ?_⟩, hdefined⟩
        rw [List.map_append, List.mem_append, hinner.mem_names_reached_iff rfl]
        exact .inl (.inl hfinished)

/-- A run does not start again on the type that is visited last. -/
theorem notMem_started {visit : Visit}
    (h : Run catalog (visit :: stack) steps finished moments started outcome) :
    visit.name ∉ started.map (·.name) := by
  intro hmem
  obtain ⟨model, hmodel, heq⟩ := List.mem_map.mp hmem
  exact (h.fresh model hmodel).1.unvisited (heq ▸ List.mem_cons_self)

/-- A run starts on different models. -/
theorem nodup (h : Run catalog stack steps finished moments started outcome) :
    (started.map (·.name)).Nodup := by
  induction h with
  | done => exact List.nodup_nil
  | repeated => exact List.nodup_nil
  | cycle => exact List.nodup_nil
  | pass _ _ _ ih => exact ih
  | skip _ _ _ ih => exact ih
  | undefined => exact List.nodup_nil
  | abandon _ hmodel hinner ih =>
    rw [List.map_cons, List.nodup_cons, Catalog.name_of_get? hmodel]
    exact ⟨hinner.notMem_started, ih⟩
  | @descend stack reference steps finished inner model moments later started more outcome
      _ hmodel hinner hrest ihinner ih =>
    have hlater : ∀ name, name ∈ (inner ++ [model]).map (·.name) → name ∉ more.map (·.name) := by
      intro name hfinished hmem
      obtain ⟨other, hother, rfl⟩ := List.mem_map.mp hmem
      exact (hrest.fresh other hother).1.unfinished hfinished
    rw [List.map_cons, List.map_append, List.nodup_cons, List.nodup_append']
    refine ⟨?_, ihinner, ih, ?_⟩
    · intro hmem
      rcases List.mem_append.mp hmem with hmem | hmem
      · rw [Catalog.name_of_get? hmodel] at hmem
        exact hinner.notMem_started hmem
      · exact hlater model.name (by simp) hmem
    · intro name hstarted
      refine hlater name ?_
      rw [List.map_append, List.mem_append, hinner.mem_names_reached_iff rfl]
      exact .inl (.inr hstarted)

/-- Every moment of a run that begins at a proper moment is proper. -/
theorem isProper (h : Run catalog stack steps finished moments started outcome)
    (hproper : Moment.IsProper catalog ⟨stack, finished⟩) :
    ∀ moment ∈ moments, moment.IsProper catalog := by
  have hdown : ∀ {stack finished visit model}, Moment.IsProper catalog ⟨stack, finished⟩ →
      IsNew stack finished visit.name → catalog.get? visit.name = some model →
      Moment.IsProper catalog ⟨visit :: stack, finished⟩ := by
    intro stack finished visit model hproper hnew hmodel
    have hdefined : visit.name ∈ catalog.names := Catalog.mem_names_iff.mpr ⟨model, hmodel⟩
    refine ⟨List.nodup_cons.mpr ⟨hnew.unvisited, hproper.nodup⟩,
      List.cons_subset.mpr ⟨hdefined, hproper.defined⟩, ?_⟩
    exact List.forall_mem_cons.mpr ⟨hnew.unfinished, hproper.apart⟩
  induction h with
  | done => simpa using hproper
  | repeated => simpa using hproper
  | cycle => simpa using hproper
  | pass _ _ _ ih => exact List.forall_mem_cons.mpr ⟨hproper, ih hproper⟩
  | skip _ _ _ ih => exact List.forall_mem_cons.mpr ⟨hproper, ih hproper⟩
  | undefined => simpa using hproper
  | abandon hnew hmodel _ ih =>
    exact List.forall_mem_cons.mpr ⟨hproper, ih (hdown hproper hnew hmodel)⟩
  | @descend stack reference steps finished inner model moments later started more outcome
      hnew hmodel hinner _ ihinner ih =>
    have hback : Moment.IsProper catalog ⟨stack, inner ++ [model]⟩ := by
      refine ⟨hproper.nodup, hproper.defined, fun name hvisited hfinished => ?_⟩
      rw [List.map_append, List.mem_append, hinner.mem_names_reached_iff rfl] at hfinished
      rcases hfinished with (hfinished | hstarted) | hlast
      · exact hproper.apart name hvisited hfinished
      · obtain ⟨other, hother, rfl⟩ := List.mem_map.mp hstarted
        exact (hinner.fresh other hother).1.unvisited (List.mem_cons_of_mem _ hvisited)
      · obtain rfl : name = model.name := by simpa using hlast
        exact hnew.unvisited (Catalog.name_of_get? hmodel ▸ hvisited)
    refine List.forall_mem_cons.mpr ⟨hproper, fun moment hmoment => ?_⟩
    rcases List.mem_append.mp hmoment with hmoment | hmoment
    · exact ihinner (hdown hproper hnew hmodel) moment hmoment
    · exact ih hback moment hmoment

/-- A run comes through no more moments than the steps that it is given, and those of the models on
which it starts, allow. -/
theorem length_moments_le (h : Run catalog stack steps finished moments started outcome) :
    moments.length ≤ steps.length + 1 + (started.map (·.steps.length + 1)).sum := by
  induction h with
  | done => simp
  | repeated => simp
  | cycle => simp
  | undefined => simp
  | pass _ _ _ ih | skip _ _ _ ih | abandon _ _ _ ih =>
    simp only [List.length_cons, List.map_cons, List.sum_cons]
    omega
  | descend _ _ _ _ ihinner ih =>
    simp only [List.length_cons, List.length_append, List.map_cons, List.map_append, List.sum_cons,
      List.sum_append]
    omega

end Run

/-- No more types are visited at a proper moment than the catalog defines. -/
theorem Moment.IsProper.length_le {moment : Moment} (h : moment.IsProper catalog) :
    moment.stack.length ≤ catalog.size := by
  have hlength : moment.visited.length = moment.stack.length := List.length_map _
  exact hlength ▸ Catalog.length_le_of_nodup h.nodup h.defined

end Walk

namespace Catalog

open Walk (Moment Run)

/-- The runs that introspect a root, each with the moments through which it comes, the models on
whose steps it starts, the root first, and its outcome. At the last moment of an introspection that
succeeds nothing is visited any more. -/
inductive Introspects (catalog : Catalog) (registry : Registry) (root : String) :
    List Moment → List Model → Except IntrospectionError SchemaTree → Prop
  | undefined : catalog.get? root = none →
    Introspects catalog registry root [] [] (.error (.unknownRoot root))
  | reserved {model : Model} {field : FieldDecl} : catalog.get? root = some model →
    model.fields.find? (fun field => StructuralKey.isReserved field.name) = some field →
    Introspects catalog registry root [] [] (.error (.reservedFieldName root field.name))
  | refuse {model : Model} {moments : List Moment} {started : List Model}
    {interruption : Interruption IntrospectionError (List Model)} :
    catalog.get? root = some model →
    model.fields.find? (fun field => StructuralKey.isReserved field.name) = none →
    Run catalog [⟨root, false⟩] model.steps [] moments started (.error interruption) →
    Introspects catalog registry root moments (model :: started) (.error interruption.cause)
  | finish {model : Model} {moments : List Moment} {started finished : List Model} :
    catalog.get? root = some model →
    model.fields.find? (fun field => StructuralKey.isReserved field.name) = none →
    Run catalog [⟨root, false⟩] model.steps [] moments started (.ok finished) →
    Introspects catalog registry root (moments ++ [⟨[], finished ++ [model]⟩]) (model :: started)
      (.ok (.ofModels registry model (finished ++ [model])))

variable {catalog : Catalog} {registry : Registry} {root : String} {moments : List Moment}
  {started : List Model} {result : Except IntrospectionError SchemaTree}

/-- Every introspection comes to an end. -/
theorem exists_introspects (catalog : Catalog) (registry : Registry) (root : String) :
    ∃ moments started, Introspects catalog registry root moments started
      (catalog.introspect registry root) := by
  unfold introspect explore
  cases hmodel : catalog.get? root with
  | none => exact ⟨_, _, .undefined hmodel⟩
  | some model =>
    dsimp only
    cases hreserved : model.fields.find? (fun field => StructuralKey.isReserved field.name) with
    | some field => exact ⟨_, _, .reserved hmodel hreserved⟩
    | none =>
      obtain ⟨moments, started, hrun⟩ := Walk.exists_run catalog [⟨root, false⟩] model.steps []
      dsimp only
      cases hwalk : walk catalog [⟨root, false⟩] model.steps [] with
      | error interruption => exact ⟨_, _, .refuse hmodel hreserved (hwalk ▸ hrun)⟩
      | ok finished => exact ⟨_, _, .finish hmodel hreserved (hwalk ▸ hrun)⟩

namespace Introspects

/-- There is one outcome. -/
theorem eq_introspect (h : Introspects catalog registry root moments started result) :
    result = catalog.introspect registry root := by
  cases h with
  | undefined hmodel => simp only [introspect, explore, hmodel]
  | reserved hmodel hreserved => simp only [introspect, explore, hmodel, hreserved]
  | refuse hmodel hreserved hrun | finish hmodel hreserved hrun =>
    simp only [introspect, explore, hmodel, hreserved, ← hrun.eq_walk]
    rfl

/-- At every moment of an introspection different defined types are visited, none of which is
finished. -/
theorem isProper (h : Introspects catalog registry root moments started result) :
    ∀ moment ∈ moments, moment.IsProper catalog := by
  cases h with
  | undefined => simp
  | reserved => simp
  | refuse hmodel _ hrun => exact hrun.isProper (.start hmodel)
  | finish hmodel _ hrun =>
    intro moment hmoment
    rcases List.mem_append.mp hmoment with hmoment | hmoment
    · exact hrun.isProper (.start hmodel) moment hmoment
    · obtain rfl := List.mem_singleton.mp hmoment
      exact .last _

/-- An introspection starts on different models, and on defined ones only. -/
theorem nodup (h : Introspects catalog registry root moments started result) :
    (started.map (·.name)).Nodup ∧ ∀ model ∈ started, catalog.get? model.name = some model := by
  have hroot : ∀ {model moments started outcome}, catalog.get? root = some model →
      Run catalog [⟨root, false⟩] model.steps [] moments started outcome →
      ((model :: started).map (·.name)).Nodup ∧
        ∀ other ∈ model :: started, catalog.get? other.name = some other := by
    intro model moments started outcome hmodel hrun
    obtain rfl := name_of_get? hmodel
    refine ⟨List.nodup_cons.mpr ⟨hrun.notMem_started, hrun.nodup⟩, ?_⟩
    exact List.forall_mem_cons.mpr ⟨hmodel, fun other hother => (hrun.fresh other hother).2⟩
  cases h with
  | undefined => simp
  | reserved => simp
  | refuse hmodel _ hrun => exact hroot hmodel hrun
  | finish hmodel _ hrun => exact hroot hmodel hrun

/-- An introspection comes through no more moments than the steps of the models on which it starts
allow. -/
theorem length_moments_le (h : Introspects catalog registry root moments started result) :
    moments.length ≤ (started.map (·.steps.length + 1)).sum + 1 := by
  cases h with
  | undefined => simp
  | reserved => simp
  | refuse _ _ hrun | finish _ _ hrun =>
    have hlength := hrun.length_moments_le
    simp only [List.length_append, List.length_singleton, List.map_cons, List.sum_cons]
    omega

end Introspects

/-- The introspection of a root comes to an end, whatever its models are. At every moment the types
that it visits are different, none of them is finished, and they are no more than the catalog
defines. It starts on each model at most once, and it comes through no more moments than the steps
of these models allow. -/
theorem introspection_ends (catalog : Catalog) (registry : Registry) (root : String) :
    (∃ moments started, catalog.Introspects registry root moments started
      (catalog.introspect registry root)) ∧
    ∀ moments started result, catalog.Introspects registry root moments started result →
      result = catalog.introspect registry root ∧
      (∀ moment ∈ moments, moment.visited.Nodup ∧
        (∀ name ∈ moment.visited, name ∉ moment.finished.map (·.name)) ∧
        moment.stack.length ≤ catalog.size) ∧
      (started.map (·.name)).Nodup ∧
      (∀ model ∈ started, catalog.get? model.name = some model) ∧
      moments.length ≤ (started.map (·.steps.length + 1)).sum + 1 := by
  refine ⟨exists_introspects catalog registry root, fun moments started result h => ?_⟩
  obtain ⟨hnodup, hdefined⟩ := h.nodup
  refine ⟨h.eq_introspect, fun moment hmoment => ?_, hnodup, hdefined, h.length_moments_le⟩
  have hproper := h.isProper moment hmoment
  exact ⟨hproper.nodup, hproper.apart, hproper.length_le⟩

/-- A folder may have a parent and has files. -/
def folder : Model where
  name := "Folder"
  fields := [
    { name := "parent", kind := .nullable (.reference "Folder") },
    { name := "files", kind := .collection (.reference "File") }]

/-- A file refers back to the folder that it is in. -/
def file : Model where
  name := "File"
  fields := [{ name := "folder", kind := .reference "Folder" }]

/-- The folder and its file are started once each, and the reference of the file back to its folder
starts nothing. -/
theorem introspection_ends_folder :
    ∃ moments started tree,
      (ofModels [folder, file]).Introspects ∅ "Folder" moments started (.ok tree) ∧
      moments.map (·.visited) = [["Folder"], ["Folder"], ["File", "Folder"], ["File", "Folder"],
        ["Folder"], []] ∧
      started = [folder, file] ∧ (ofModels [folder, file]).introspect ∅ "Folder" = .ok tree ∧
      (∀ moment ∈ moments, moment.visited.Nodup ∧
        (∀ name ∈ moment.visited, name ∉ moment.finished.map (·.name)) ∧
        moment.stack.length ≤ (ofModels [folder, file]).size) ∧
      (started.map (·.name)).Nodup ∧
      moments.length ≤ (started.map (·.steps.length + 1)).sum + 1 := by
  have hfile : file.steps = [.reference ⟨"File", "folder", "Folder", false⟩] := by decide
  have hfolder : folder.steps = [.reference ⟨"Folder", "parent", "Folder", true⟩,
      .reference ⟨"Folder", "files", "File", true⟩] := by decide
  have hbelow : Run (ofModels [folder, file]) [⟨"File", true⟩, ⟨"Folder", false⟩] file.steps []
      [⟨[⟨"File", true⟩, ⟨"Folder", false⟩], []⟩, ⟨[⟨"File", true⟩, ⟨"Folder", false⟩], []⟩] []
      (.ok []) := by
    rw [hfile]
    exact .pass (by decide) (by decide) .done
  have hnew :
      Walk.IsNew [⟨"Folder", false⟩] [] (Reference.mk "Folder" "files" "File" true).target :=
    ⟨by decide, by decide⟩
  have hfiles := Run.descend hnew (by decide) hbelow .done
  have hparent : (Reference.mk "Folder" "parent" "Folder" true).target ∈
      [Visit.mk "Folder" false].map (·.name) := by decide
  have hrun := Run.pass hparent (by decide) hfiles
  rw [← hfolder] at hrun
  have hintrospects :=
    @Introspects.finish _ ∅ _ _ _ _ _ (by decide) (by decide) hrun
  obtain ⟨hresult, hmoments, hnodup, -, hlength⟩ :=
    (introspection_ends (ofModels [folder, file]) ∅ "Folder").2 _ _ _ hintrospects
  exact ⟨_, _, _, hintrospects, rfl, rfl, hresult.symm, hmoments, hnodup, hlength⟩

end Catalog

end LinkedSchema
