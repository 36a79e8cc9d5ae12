import LinkedSchema.Introspection
import LinkedSchema.Proofs.Introspection.Run

/-!
# What an exploration has reached

When an exploration succeeds, nothing is being visited any more, so every reference of a finished
model leads to a finished model. The types it gives are exactly those reachable from the root, each
with the model that the catalog has for it, and no model among them repeats a field name.
-/

namespace LinkedSchema

namespace Catalog

variable {catalog : Catalog} {root : String}

/-- A successful exploration ends with the root, nothing being visited any more, and everything
settled that it has finished. -/
theorem progress_of_explore {model : Model} {reached : List Model}
    (h : catalog.explore root = .ok (model, reached)) :
    catalog.get? root = some model ∧ model ∈ reached ∧
      Walk.Progress catalog root [] reached := by
  unfold explore at h
  split at h
  · cases h
  · next hroot =>
    split at h
    · cases h
    · cases hrun : walk catalog [⟨root, false⟩] _ [] with
      | error interruption =>
        rw [hrun] at h
        cases h
      | ok finished =>
        rw [hrun] at h
        cases h
        obtain ⟨hprogress, -, hmet⟩ :=
          Walk.progress_of_walk hrun (.start hroot) (.nil [⟨root, false⟩])
        exact ⟨hroot, by simp, hprogress.ascend hroot .refl (by simp) hmet⟩

/-- A tree comes from the models of a successful exploration. -/
theorem exists_explore_of_introspect {registry : Registry} {tree : SchemaTree}
    (h : catalog.introspect registry root = .ok tree) :
    ∃ model reached, catalog.explore root = .ok (model, reached) ∧
      tree = .ofModels registry model reached := by
  unfold introspect at h
  split at h
  · cases h
  · next model reached hexplore =>
    cases h
    exact ⟨model, reached, hexplore, rfl⟩

end Catalog

namespace Walk.Progress

variable {catalog : Catalog} {root : String} {reached : List Model}

/-- Every step of a reached model is a reference to a reached model. -/
theorem steps_reached (h : Progress catalog root [] reached) {model : Model}
    (hmodel : model ∈ reached) {step : Step} (hstep : step ∈ model.steps) :
    ∃ reference, step = .reference reference ∧ reference.target ∈ reached.map (·.name) := by
  obtain ⟨before, after, rfl⟩ := List.append_of_mem hmodel
  obtain ⟨reference, rfl, htarget⟩ := h.settled before model after rfl step hstep
  refine ⟨reference, rfl, ?_⟩
  rcases htarget with htarget | ⟨-, htarget | htarget⟩
  · rw [List.map_append]
    exact List.mem_append_left _ htarget
  · simp at htarget
  · exact htarget

/-- The fields of a reached model have distinct names. -/
theorem hasDistinctFields (h : Progress catalog root [] reached) {model : Model}
    (hmodel : model ∈ reached) : model.HasDistinctFields := by
  refine Model.hasDistinctFields_of_steps ?_
  intro step hstep
  obtain ⟨reference, heq, -⟩ := h.steps_reached hmodel hstep
  exact ⟨reference, heq⟩

/-- A reached model is found in the catalog under its name, and a model found there under a
reached name is reached. -/
theorem mem_iff (h : Progress catalog root [] reached) {model : Model} :
    model ∈ reached ↔
      model.name ∈ reached.map (·.name) ∧ catalog.get? model.name = some model := by
  constructor
  · exact fun hmodel => ⟨List.mem_map_of_mem hmodel, h.defined model hmodel⟩
  · rintro ⟨hname, hmodel⟩
    obtain ⟨other, hother, heq⟩ := List.mem_map.mp hname
    have hdefined := h.defined other hother
    rw [heq, hmodel] at hdefined
    exact Option.some.inj hdefined ▸ hother

/-- Whatever a reached type refers to is reached. -/
theorem refers_reached (h : Progress catalog root [] reached) {type target : String}
    (htype : type ∈ reached.map (·.name)) (hrefers : catalog.Refers type target) :
    target ∈ reached.map (·.name) := by
  obtain ⟨model, hmodel, field, hfield, hmentions⟩ := hrefers
  have hname := Catalog.name_of_get? hmodel
  subst hname
  have hreached := h.mem_iff.mpr ⟨htype, hmodel⟩
  obtain ⟨reference, hreference, rfl⟩ := field.exists_mem_references model.name hmentions
  have hstep := (h.hasDistinctFields hreached).reference_mem_steps hfield hreference
  obtain ⟨_, heq, htarget⟩ := h.steps_reached hreached hstep
  cases heq
  exact htarget

/-- The reached types are those to which references lead from the root. -/
theorem mem_names_iff_reaches (h : Progress catalog root [] reached)
    (hroot : root ∈ reached.map (·.name)) {type : String} :
    type ∈ reached.map (·.name) ↔ catalog.Reaches root type := by
  constructor
  · intro hmem
    obtain ⟨model, hmodel, rfl⟩ := List.mem_map.mp hmem
    exact h.reached model hmodel
  · intro hreach
    induction hreach with
    | refl => exact hroot
    | tail _ hrefers ih => exact h.refers_reached ih hrefers

/-- One or more references lead from the root to the reached types, and to the root itself only if
some reached model mentions it. -/
theorem transGen_iff (h : Progress catalog root [] reached)
    (hroot : root ∈ reached.map (·.name)) {type : String} :
    Relation.TransGen catalog.Refers root type ↔ type ∈ reached.map (·.name) ∧
      (type = root → ∃ model ∈ reached, ∃ field ∈ model.fields, field.kind.Mentions root) := by
  constructor
  · intro hleads
    refine ⟨(h.mem_names_iff_reaches hroot).mpr hleads.to_reflTransGen, ?_⟩
    rintro rfl
    obtain ⟨last, hlast, model, hmodel, hmentions⟩ := Relation.TransGen.tail'_iff.mp hleads
    obtain rfl := Catalog.name_of_get? hmodel
    have hreached := (h.mem_names_iff_reaches hroot).mpr hlast
    exact ⟨model, h.mem_iff.mpr ⟨hreached, hmodel⟩, hmentions⟩
  · rintro ⟨htype, hself⟩
    have hreach := (h.mem_names_iff_reaches hroot).mp htype
    rcases Relation.reflTransGen_iff_eq_or_transGen.mp hreach with rfl | hleads
    · obtain ⟨model, hmodel, hmentions⟩ := hself rfl
      exact .tail' (h.reached model hmodel) ⟨model, h.defined model hmodel, hmentions⟩
    · exact hleads

end Walk.Progress

end LinkedSchema
