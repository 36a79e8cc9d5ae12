import LinkedSchema.Proofs.Introspection.Reached
import LinkedSchema.Proofs.Outcome
import Mathlib

/-!
# Loops of direct references

A loop of models is refused where the walk comes back to a type that it is visiting and the way
that it has walked since has no indirection. What counts is this way, not the loop: if the walk got
to the end of the loop by a detour with an indirection, while direct references lead there as well,
the loop of direct references is let pass and is not looked at again. The main statement says that
this is the only way in which such a loop can be overlooked.
-/

namespace LinkedSchema

namespace Walk

/-- A walk from a root comes by a detour to the end of a loop: it meets a direct reference back to
a type that it is visiting, and an indirect reference led into a type that it visits since. -/
structure Detour (catalog : Catalog) (root : String) (reference : Reference) : Prop where
  direct : reference.indirect = false
  met : ∃ stack steps finished,
    Comes catalog root stack (.reference reference :: steps) finished ∧
      reference.target ∈ stack.map (·.name) ∧
      (above stack reference.target).any (·.indirect) = true

variable {catalog : Catalog} {root : String} {reached : List Model}

/-- A direct reference that is let pass was come to by a detour. -/
theorem LetsPass.detour {reference : Reference} (h : LetsPass catalog root reference)
    (hdirect : reference.indirect = false) : Detour catalog root reference := by
  obtain ⟨stack, steps, finished, hcomes, htarget, hbroken⟩ := h
  refine ⟨hdirect, stack, steps, finished, hcomes, htarget, ?_⟩
  simpa [isBroken, hdirect] using hbroken

/-- The reference at the end of a detour is a direct one to a reachable type. -/
theorem Detour.refersDirectly {reference : Reference} (h : Detour catalog root reference) :
    catalog.Reaches root reference.target ∧
      catalog.RefersDirectly reference.referrer reference.target := by
  obtain ⟨stack, steps, finished, hcomes, htarget, -⟩ := h.met
  exact ⟨hcomes.reaches _ htarget, hcomes.refers.2.2 h.direct⟩

/-- A direct reference of a reached type leads to a type that was finished before it, or was come
to by a detour. -/
theorem Progress.idxOf_lt_or_detour (h : Progress catalog root [] reached) {type target : String}
    (htype : type ∈ reached.map (·.name)) (hrefers : catalog.RefersDirectly type target) :
    (reached.map (·.name)).idxOf target < (reached.map (·.name)).idxOf type ∨
      ∃ reference, Detour catalog root reference ∧ reference.referrer = type ∧
        reference.target = target := by
  obtain ⟨model, hmodel, field, hfield, hmentions⟩ := hrefers
  obtain rfl := Catalog.name_of_get? hmodel
  have hreached := h.mem_iff.mpr ⟨htype, hmodel⟩
  obtain ⟨reference, hreference, rfl, hreferrer, hdirect⟩ :=
    field.exists_mem_references_direct model.name hmentions
  have hstep := (h.hasDistinctFields hreached).reference_mem_steps hfield hreference
  obtain ⟨before, after, rfl⟩ := List.append_of_mem hreached
  obtain ⟨_, heq, htarget⟩ := h.settled before model after rfl _ hstep
  cases heq
  rcases htarget with hbefore | ⟨hpass, -⟩
  · left
    have hlater : model.name ∉ before.map (·.name) := by
      have hnodup := h.nodup
      rw [List.map_append, List.nodup_append] at hnodup
      exact fun hmem => hnodup.2.2 _ hmem _ (by simp) rfl
    rw [List.map_append, List.idxOf_append_of_mem hbefore, List.idxOf_append_of_notMem hlater]
    have hlength := List.idxOf_lt_length_of_mem hbefore
    omega
  · exact .inr ⟨reference, hpass.detour hdirect, hreferrer, rfl⟩

/-- Where no direct way runs beside a detour, direct references that lead back to a type go to
types that were finished before it. -/
theorem Progress.idxOf_lt_of_loop (h : Progress catalog root [] reached)
    (hdetours : ∀ reference, Detour catalog root reference →
      ¬ Relation.ReflTransGen catalog.RefersDirectly reference.target reference.referrer)
    {type target : String} (htype : type ∈ reached.map (·.name))
    (hleads : Relation.TransGen catalog.RefersDirectly type target)
    (hback : Relation.ReflTransGen catalog.RefersDirectly target type) :
    (reached.map (·.name)).idxOf target < (reached.map (·.name)).idxOf type := by
  have hstep : ∀ {type target : String}, type ∈ reached.map (·.name) →
      catalog.RefersDirectly type target →
      Relation.ReflTransGen catalog.RefersDirectly target type →
      (reached.map (·.name)).idxOf target < (reached.map (·.name)).idxOf type := by
    intro type target htype hrefers hback
    rcases h.idxOf_lt_or_detour htype hrefers with hlt | ⟨reference, hdetour, rfl, rfl⟩
    · exact hlt
    · exact absurd hback (hdetours reference hdetour)
  induction hleads with
  | single hrefers => exact hstep htype hrefers hback
  | tail hleads hrefers ih =>
    have hmiddle := ih (hback.head hrefers)
    have hmem := List.idxOf_lt_length_iff.mp
      (Nat.lt_trans hmiddle (List.idxOf_lt_length_of_mem htype))
    have hlast := hstep hmem hrefers (hback.trans hleads.to_reflTransGen)
    omega

end Walk

namespace Catalog

/-- Introspection succeeds only without loops of direct references among the types reachable from
the root, exactly as long as no detour of its walk has direct references leading the same way. -/
theorem no_direct_loop_iff {catalog : Catalog} {registry : Registry} {root : String}
    {tree : SchemaTree} (h : catalog.introspect registry root = .ok tree) :
    (∀ type, catalog.Reaches root type →
        ¬ Relation.TransGen catalog.RefersDirectly type type) ↔
      ∀ reference, Walk.Detour catalog root reference →
        ¬ Relation.ReflTransGen catalog.RefersDirectly reference.target reference.referrer := by
  constructor
  · intro hloops reference hdetour hway
    obtain ⟨hreach, hrefers⟩ := hdetour.refersDirectly
    exact hloops _ hreach (.tail' hway hrefers)
  · intro hdetours type hreach hloop
    obtain ⟨model, reached, hexplore, -⟩ := exists_explore_of_introspect h
    obtain ⟨hroot, hmem, hprogress⟩ := progress_of_explore hexplore
    have hname := name_of_get? hroot
    have htype := (hprogress.mem_names_iff_reaches
      (List.mem_map.mpr ⟨_, hmem, hname⟩)).mpr hreach
    -- Around the loop the places in the order of finishing go down, back to the first of them.
    have hlt := hprogress.idxOf_lt_of_loop hdetours htype hloop .refl
    omega

/-- Two models with a detour and no direct way beside it: an owner lists its items, and each item
names its owner. -/
def ownedItems : Catalog :=
  .ofModels [
    { name := "Owner", fields := [{ name := "items", kind := .collection (.reference "Item") }] },
    { name := "Item", fields := [{ name := "owner", kind := .reference "Owner" }] }]

/-- An item refers back to its owner past the list in which it was met, with no direct references
leading from the owner to it. -/
theorem no_direct_loop_iff_ownedItems :
    ∃ tree, ownedItems.introspect ∅ "Owner" = .ok tree ∧
      ((∀ type, ownedItems.Reaches "Owner" type →
          ¬ Relation.TransGen ownedItems.RefersDirectly type type) ↔
        ∀ reference, Walk.Detour ownedItems "Owner" reference →
          ¬ Relation.ReflTransGen ownedItems.RefersDirectly reference.target
            reference.referrer) := by
  have hok : (ownedItems.introspect ∅ "Owner").isOk = true := by cbv
  obtain ⟨tree, h⟩ := Outcome.exists_of_isOk hok
  exact ⟨tree, h, no_direct_loop_iff h⟩

/-- An owner with a list of items and then a single item, where each item names its owner. -/
def itemsBeforeItem : Catalog :=
  .ofModels [
    { name := "Owner", fields := [
      { name := "items", kind := .collection (.reference "Item") },
      { name := "first", kind := .reference "Item" }] },
    { name := "Item", fields := [{ name := "owner", kind := .reference "Owner" }] }]

/-- The owner holds an item directly and the item its owner, but the walk comes to the item through
the list. -/
theorem direct_loop_overlooked :
    ¬ ∀ (catalog : Catalog) (registry : Registry) (root : String) (tree : SchemaTree),
      catalog.introspect registry root = .ok tree → ∀ type, catalog.Reaches root type →
        ¬ Relation.TransGen catalog.RefersDirectly type type := by
  intro hclaim
  have hok : (itemsBeforeItem.introspect ∅ "Owner").isOk = true := by cbv
  obtain ⟨tree, h⟩ := Outcome.exists_of_isOk hok
  have hdown : itemsBeforeItem.RefersDirectly "Owner" "Item" :=
    ⟨_, by cbv, { name := "first", kind := .reference "Item" }, by simp, .reference⟩
  have hup : itemsBeforeItem.RefersDirectly "Item" "Owner" :=
    ⟨_, by cbv, { name := "owner", kind := .reference "Owner" }, by simp, .reference⟩
  exact hclaim itemsBeforeItem ∅ "Owner" tree h "Owner" .refl (.tail (.single hdown) hup)

end Catalog

end LinkedSchema
