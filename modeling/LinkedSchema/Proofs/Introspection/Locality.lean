import LinkedSchema.Proofs.Introspection.Tree

/-!
# What an introspection depends on

A walk looks up only types to which references lead from the root, and the definitions of a tree are
made of the models of these types and of the annotations of their fields. So two catalogs with two
registries that agree on these types have the same tree, or the same error.
-/

namespace LinkedSchema

/-- Two registries give a field the same description and the same unit. -/
def Registry.SameAnnotations (registry annotated : Registry) (type field : String) : Prop :=
  (registry.field? type field).bind (·.description) =
      (annotated.field? type field).bind (·.description) ∧
    (registry.field? type field).bind (·.unit) = (annotated.field? type field).bind (·.unit)

/-- The definition of a model depends on the annotations of its fields only. -/
theorem TypeDefinition.ofModel_congr {registry annotated : Registry} {model : Model}
    (h : ∀ field ∈ model.fields, registry.SameAnnotations annotated model.name field.name) :
    ofModel registry model = ofModel annotated model := by
  have hfields : model.fields.map (Property.ofDecl registry model.name) =
      model.fields.map (Property.ofDecl annotated model.name) := by
    refine List.map_congr_left fun field hfield => ?_
    obtain ⟨hdescription, hunit⟩ := h field hfield
    rw [Property.ofDecl, Property.ofDecl, hdescription, hunit]
  rw [ofModel, ofModel, hfields]

/-- A tree depends on the annotations of the fields of its models only. -/
theorem SchemaTree.ofModels_congr {registry annotated : Registry} {root : Model}
    {reached : List Model} (hroot : root ∈ reached)
    (h : ∀ model ∈ reached, ∀ field ∈ model.fields,
      registry.SameAnnotations annotated model.name field.name) :
    ofModels registry root reached = ofModels annotated root reached := by
  have hreached : reached.map (TypeDefinition.ofModel registry) =
      reached.map (TypeDefinition.ofModel annotated) :=
    List.map_congr_left fun model hmodel => TypeDefinition.ofModel_congr (h model hmodel)
  rw [ofModels, ofModels, hreached, TypeDefinition.ofModel_congr (h root hroot)]

namespace Walk

variable {catalog other : Catalog} {root : String}

/-- A walk is refused at a reference to a type that is neither visited nor finished nor defined. -/
theorem walk_undefined {stack : List Visit} {reference : Reference} {steps : List Step}
    {finished : List Model} (hstack : reference.target ∉ stack.map (·.name))
    (hfinished : ¬ finished.any (·.name = reference.target) = true)
    (hnone : catalog.get? reference.target = none) :
    walk catalog stack (.reference reference :: steps) finished = .error
      ⟨.unknownType reference.target reference.referrer reference.field, finished⟩ := by
  rw [walk, dif_neg hstack, if_neg hfinished]
  split
  · rfl
  · next found hfound => cases hnone.symm.trans hfound

/-- A type that is neither visited nor finished is walked before the walk goes on. -/
theorem walk_descend {stack : List Visit} {reference : Reference} {steps : List Step}
    {finished : List Model} {model : Model} (hstack : reference.target ∉ stack.map (·.name))
    (hfinished : ¬ finished.any (·.name = reference.target) = true)
    (hmodel : catalog.get? reference.target = some model) :
    walk catalog stack (.reference reference :: steps) finished =
      match walk catalog (⟨reference.target, reference.indirect⟩ :: stack) model.steps finished with
      | .error interruption => .error interruption
      | .ok finished => walk catalog stack steps (finished ++ [model]) := by
  rw [walk, dif_neg hstack, if_neg hfinished]
  split
  · next hnone => cases hnone.symm.trans hmodel
  · next found hfound =>
    obtain rfl : model = found := Option.some.inj (hmodel.symm.trans hfound)
    rfl

/-- What a walk from the root refers to is reachable. -/
theorem Comes.reaches_target {stack : List Visit} {reference : Reference} {steps : List Step}
    {finished : List Model}
    (h : Comes catalog root stack (.reference reference :: steps) finished) :
    catalog.Reaches root reference.target := by
  obtain ⟨⟨visit, rest, rfl, hreferrer⟩, hrefers, -⟩ := h.refers
  exact (h.reaches reference.referrer (by simp [hreferrer])).tail hrefers

/-- A walk from a root is the same in another catalog that agrees on all types that are reachable
from the root. -/
theorem walk_congr (h : ∀ type, catalog.Reaches root type → catalog.get? type = other.get? type)
    {stack : List Visit} {steps : List Step} {finished : List Model}
    (hcomes : Comes catalog root stack steps finished) :
    walk catalog stack steps finished = walk other stack steps finished := by
  -- The walk comes only through situations of the root, so it looks up only what is reachable.
  fun_induction walk catalog stack steps finished with
  | case1 => rw [walk]
  | case2 => rw [walk]
  | case3 stack finished reference steps hstack hbroken ih =>
    rw [walk, dif_pos hstack, if_pos hbroken]
    exact ih (hcomes.pass hstack hbroken)
  | case4 stack finished reference steps hstack hbroken =>
    rw [walk, dif_pos hstack, if_neg hbroken]
  | case5 stack finished reference steps hstack hfinished ih =>
    rw [walk, dif_neg hstack, if_pos hfinished]
    exact ih (hcomes.skip hstack hfinished)
  | case6 stack finished reference steps hstack hfinished hnone =>
    have hother := (h _ hcomes.reaches_target).symm.trans hnone
    exact (walk_undefined hstack hfinished hother).symm
  | case7 stack finished reference steps hstack hfinished model hmodel visit interruption hrun ih =>
    have hother := (h _ hcomes.reaches_target).symm.trans hmodel
    have hinner := ih (hcomes.descend hstack hfinished hmodel)
    rw [walk_descend hstack hfinished hother, ← hinner, hrun]
  | case8 stack finished reference steps hstack hfinished model hmodel visit inner hrun ihinner =>
    rename_i ih
    have hother := (h _ hcomes.reaches_target).symm.trans hmodel
    have hinner := ihinner (hcomes.descend hstack hfinished hmodel)
    rw [walk_descend hstack hfinished hother, ← hinner, hrun]
    exact ih (hcomes.ascend hstack hfinished hmodel hrun)

end Walk

namespace Catalog

variable {catalog other : Catalog} {registry annotated : Registry} {root : String}

/-- An exploration depends on what is reachable from its root only. -/
theorem explore_congr
    (h : ∀ type, catalog.Reaches root type → catalog.get? type = other.get? type) :
    catalog.explore root = other.explore root := by
  rw [explore, explore, ← h root .refl]
  split
  · rfl
  · next model hmodel =>
    split
    · rfl
    · rw [Walk.walk_congr h (.start hmodel)]

/-- An introspection depends on the models of the types that are reachable from its root and on the
annotations of their fields only. -/
theorem introspect_congr
    (h : ∀ type, catalog.Reaches root type → catalog.get? type = other.get? type)
    (hfields : ∀ type model, catalog.Reaches root type → catalog.get? type = some model →
      ∀ field ∈ model.fields, registry.SameAnnotations annotated type field.name) :
    catalog.introspect registry root = other.introspect annotated root := by
  rw [introspect, introspect, ← explore_congr h]
  split
  · rfl
  · next model reached hexplore =>
    obtain ⟨-, hmem, hprogress⟩ := progress_of_explore hexplore
    rw [SchemaTree.ofModels_congr hmem]
    intro other hother
    exact hfields other.name other (hprogress.reached other hother) (hprogress.defined other hother)

/-- Of types among which all references stay, nothing else is reachable. -/
theorem mem_of_reaches {names : List String} (hroot : root ∈ names)
    (hclosed : ∀ type ∈ names, ∀ model ∈ catalog.get? type, ∀ field ∈ model.fields,
      ∀ target ∈ field.kind.referenced, target ∈ names)
    {type : String} (hreach : catalog.Reaches root type) : type ∈ names := by
  induction hreach with
  | refl => exact hroot
  | tail _ hrefers ih =>
    obtain ⟨model, hmodel, field, hfield, hmentions⟩ := hrefers
    exact hclosed _ ih model hmodel field hfield _ (Kind.mem_referenced_iff.mpr hmentions)

end Catalog

end LinkedSchema
