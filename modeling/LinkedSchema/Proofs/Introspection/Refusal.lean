import LinkedSchema.Proofs.Introspection.Tree
import LinkedSchema.Proofs.Outcome
import Mathlib

/-!
# Why an introspection is refused

A walk that is refused has a reason in the models, whatever the order of their fields: a reachable
type is undefined or repeats a field name, or direct references lead from a reachable type back to
itself. The types on the stack of the walk lead to each other, so the loop that the walk reports is
such a loop. In the other direction the last reason need not be noticed, but the first ones always
are.
-/

namespace LinkedSchema

/-- What is the matter with a catalog where introspection of a root is refused. A cycle goes over
distinct types from a reachable one back to it, by direct references only. -/
inductive Catalog.Warrants (catalog : Catalog) (root : String) : IntrospectionError → Prop
  | unknownRoot : catalog.get? root = none → Warrants catalog root (.unknownRoot root)
  | reservedFieldName {model : Model} {field : FieldDecl} {key : StructuralKey} :
    catalog.get? root = some model → field ∈ model.fields → field.name = key.name →
    Warrants catalog root (.reservedFieldName root field.name)
  | duplicateField {type name : String} {model : Model} : catalog.Reaches root type →
    catalog.get? type = some model → 2 ≤ (model.fields.map (·.name)).count name →
    Warrants catalog root (.duplicateField type name)
  | unknownType {referrer target : String} {model : Model} {field : FieldDecl} :
    catalog.Reaches root referrer → catalog.get? referrer = some model → field ∈ model.fields →
    field.kind.Mentions target → catalog.get? target = none →
    Warrants catalog root (.unknownType target referrer field.name)
  | cycle {type : String} {between : List String} : catalog.Reaches root type →
    (type :: between).Nodup → (type :: between ++ [type]).IsChain catalog.RefersDirectly →
    Warrants catalog root (.cycle (type :: between ++ [type]))

namespace Walk

variable {catalog : Catalog} {root : String}

/-- Every visit was led to by a reference of the type that was visited before it, and by a direct
one unless it is marked as indirect. -/
def Descends (catalog : Catalog) (stack : List Visit) : Prop :=
  stack.IsChain fun visit below => visit.indirect = false →
    catalog.RefersDirectly below.name visit.name

/-- The visits of a walk lead down from the root. -/
theorem Comes.descends {stack : List Visit} {steps : List Step} {finished : List Model}
    (h : Comes catalog root stack steps finished) : Descends catalog stack := by
  induction h with
  | start _ => exact .singleton _
  | pass _ _ _ ih | skip _ _ _ ih | ascend _ _ _ _ _ ih => exact ih
  | descend hcomes _ _ _ ih =>
    obtain ⟨⟨visit, rest, rfl, hreferrer⟩, -, hdirect⟩ := hcomes.refers
    rw [hreferrer] at hdirect
    exact List.isChain_cons_cons.mpr ⟨hdirect, ih⟩

/-- Direct references lead step by step from a visited type to the one visited last if no type above
it was led to by an indirect one. -/
theorem Descends.isChain_to_head {visit : Visit} {rest : List Visit} {type : String}
    (h : Descends catalog (visit :: rest)) (htype : type ∈ (visit :: rest).map (·.name))
    (hdirect : ∀ other ∈ above (visit :: rest) type, other.indirect = false) :
    (type :: (above (visit :: rest) type).reverse.map (·.name)).IsChain catalog.RefersDirectly ∧
      (type :: (above (visit :: rest) type).reverse.map (·.name)).getLast? = some visit.name := by
  induction rest generalizing visit with
  | nil =>
    obtain rfl : type = visit.name := by simpa using htype
    simp [above]
  | cons below rest ih =>
    by_cases hname : visit.name = type
    · subst hname
      simp [above]
    · have habove : above (visit :: below :: rest) type = visit :: above (below :: rest) type := by
        rw [above, List.takeWhile_cons_of_pos (by simpa using hname), above]
      rw [habove, List.forall_mem_cons] at hdirect
      obtain ⟨hstep, hrest⟩ := List.isChain_cons_cons.mp h
      rw [List.map_cons, List.mem_cons] at htype
      obtain ⟨hchain, hlast⟩ := ih hrest (htype.resolve_left fun heq => hname heq.symm) hdirect.2
      rw [habove, List.reverse_cons, List.map_append, ← List.cons_append]
      refine ⟨hchain.append (.singleton _) ?_, List.getLast?_concat⟩
      intro last hmem first hfirst
      cases hlast.symm.trans hmem
      cases hfirst
      exact hstep hdirect.1

/-- The types on the stack of a walk are distinct. -/
theorem Comes.nodup {stack : List Visit} {steps : List Step} {finished : List Model}
    (h : Comes catalog root stack steps finished) : (stack.map (·.name)).Nodup := by
  induction h with
  | start _ => exact List.nodup_singleton _
  | pass _ _ _ ih | skip _ _ _ ih | ascend _ _ _ _ _ ih => exact ih
  | descend _ hstack _ _ ih => exact List.nodup_cons.mpr ⟨hstack, ih⟩

/-- No type comes twice along a loop but the one at its ends. -/
theorem nodup_loop {stack : List Visit} (hnodup : (stack.map (·.name)).Nodup) (type : String) :
    (type :: (above stack type).reverse.map (·.name)).Nodup := by
  have hbetween : ((above stack type).map (·.name)).Nodup :=
    hnodup.sublist ((List.takeWhile_sublist _).map _)
  have hends : type ∉ (above stack type).map (·.name) := by
    intro hmem
    obtain ⟨visit, hvisit, heq⟩ := List.mem_map.mp hmem
    have hother := List.mem_takeWhile_imp hvisit
    simp [heq] at hother
  rw [List.map_reverse, List.nodup_cons, List.mem_reverse, List.nodup_reverse]
  exact ⟨hends, hbetween⟩

/-- A loop that is not let pass is one of direct references. -/
theorem Comes.isChain_loop {stack : List Visit} {reference : Reference} {steps : List Step}
    {finished : List Model}
    (h : Comes catalog root stack (.reference reference :: steps) finished)
    (hstack : reference.target ∈ stack.map (·.name)) (hbroken : ¬ isBroken stack reference = true) :
    (loop stack reference.target).IsChain catalog.RefersDirectly := by
  simp only [isBroken, Bool.or_eq_true, List.any_eq_true, not_or, not_exists, not_and,
    Bool.not_eq_true] at hbroken
  obtain ⟨⟨visit, rest, rfl, hreferrer⟩, -, hdirect⟩ := h.refers
  obtain ⟨hchain, hlast⟩ := h.descends.isChain_to_head hstack hbroken.2
  refine hchain.append (.singleton _) ?_
  intro last hmem first hfirst
  cases hlast.symm.trans hmem
  cases hfirst
  rw [← hreferrer]
  exact hdirect hbroken.1

/-- The error of a refused walk is warranted by the catalog. -/
theorem warrants_of_walk {stack : List Visit} {steps : List Step} {finished : List Model}
    {interruption : Interruption IntrospectionError (List Model)}
    (hrun : walk catalog stack steps finished = .error interruption)
    (hcomes : Comes catalog root stack steps finished) :
    catalog.Warrants root interruption.cause := by
  fun_induction walk catalog stack steps finished with
  | case1 => cases hrun
  | case2 stack finished type field steps =>
    cases hrun
    obtain ⟨visit, rest, model, rfl, hmodel, hsteps⟩ := hcomes.exists_visited
    obtain ⟨rfl, hcount⟩ := Model.two_le_count_of_mem_stepsAfter (hsteps _ List.mem_cons_self)
    rw [Catalog.name_of_get? hmodel]
    exact .duplicateField (hcomes.reaches _ (by simp)) hmodel hcount
  | case3 stack finished reference steps hstack hbroken ih =>
    exact ih hrun (hcomes.pass hstack hbroken)
  | case4 stack finished reference steps hstack hbroken =>
    cases hrun
    exact .cycle (hcomes.reaches _ hstack) (nodup_loop hcomes.nodup _)
      (hcomes.isChain_loop hstack hbroken)
  | case5 stack finished reference steps hstack hfinished ih =>
    exact ih hrun (hcomes.skip hstack hfinished)
  | case6 stack finished reference steps hstack hfinished hnone =>
    cases hrun
    obtain ⟨visit, rest, model, rfl, hmodel, hsteps⟩ := hcomes.exists_visited
    obtain ⟨field, hfield, hmem⟩ :=
      Model.exists_field_of_mem_stepsAfter (hsteps _ List.mem_cons_self)
    obtain ⟨hreferrer, hmentions, -⟩ := FieldDecl.mentions_of_mem_references hmem
    rw [hreferrer, FieldDecl.name_of_mem_references hmem, Catalog.name_of_get? hmodel]
    exact .unknownType (hcomes.reaches _ (by simp)) hmodel hfield hmentions hnone
  | case7 stack finished reference steps hstack hfinished model hmodel visit failed hinner ih =>
    cases hrun
    exact ih hinner (hcomes.descend hstack hfinished hmodel)
  | case8 stack finished reference steps hstack hfinished model hmodel visit inner hinner ih1 =>
    rename_i ih2
    exact ih2 hrun (hcomes.ascend hstack hfinished hmodel hinner)

end Walk

namespace Catalog

variable {catalog : Catalog} {registry : Registry} {root : String}

/-- The root is defined and uses no name that is reserved for the structure of a document. -/
def CanBeRoot (catalog : Catalog) (root : String) : Prop :=
  ∃ model, catalog.get? root = some model ∧
    ∀ field ∈ model.fields, ¬ StructuralKey.isReserved field.name = true

/-- Introspection succeeds only where the root can be one. -/
theorem canBeRoot_of_introspect {tree : SchemaTree}
    (h : catalog.introspect registry root = .ok tree) : catalog.CanBeRoot root := by
  obtain ⟨model, reached, hexplore, -⟩ := exists_explore_of_introspect h
  unfold explore at hexplore
  split at hexplore
  · cases hexplore
  · next found hfound =>
    split at hexplore
    · cases hexplore
    · next hnone => exact ⟨found, hfound, List.find?_eq_none.mp hnone⟩

/-- The error of a refused introspection is warranted by the catalog. -/
theorem warrants_of_introspect {error : IntrospectionError}
    (h : catalog.introspect registry root = .error error) : catalog.Warrants root error := by
  unfold introspect explore at h
  cases hroot : catalog.get? root with
  | none =>
    simp only [hroot] at h
    cases h
    exact .unknownRoot hroot
  | some model =>
    cases hfind : model.fields.find? fun field => StructuralKey.isReserved field.name with
    | some field =>
      simp only [hroot, hfind] at h
      cases h
      obtain ⟨key, hkey⟩ := StructuralKey.isReserved_iff.mp (by simpa using List.find?_some hfind)
      exact .reservedFieldName hroot (List.mem_of_find?_eq_some hfind) hkey
    | none =>
      simp only [hroot, hfind] at h
      cases hrun : walk catalog [⟨root, false⟩] model.steps [] with
      | ok finished =>
        rw [hrun] at h
        cases h
      | error interruption =>
        rw [hrun] at h
        cases h
        exact Walk.warrants_of_walk hrun (.start hroot)

/-- The types along a cycle lead to each other by direct references. -/
theorem transGen_of_isChain {type : String} {between : List String}
    (h : (type :: between ++ [type]).IsChain catalog.RefersDirectly) :
    Relation.TransGen catalog.RefersDirectly type type := by
  cases between with
  | nil => exact .single (List.isChain_cons_cons.mp h).1
  | cons next between =>
    obtain ⟨hfirst, hrest⟩ := List.isChain_cons_cons.mp h
    exact .head' hfirst
      (List.relationReflTransGen_of_exists_isChain_cons (between ++ [type]) hrest (by simp))

/-- Where the root can be one and all reachable types are defined with distinct fields,
introspection is refused for nothing but a loop of direct references. -/
theorem introspect_ok_or_loop (hroot : catalog.CanBeRoot root)
    (hdefined : ∀ type, catalog.Reaches root type →
      ∃ model, catalog.get? type = some model ∧ model.HasDistinctFields) :
    (∃ tree, catalog.introspect registry root = .ok tree) ∨
      ∃ path type, catalog.introspect registry root = .error (.cycle path) ∧
        catalog.Reaches root type ∧ Relation.TransGen catalog.RefersDirectly type type := by
  cases hresult : catalog.introspect registry root with
  | ok tree => exact .inl ⟨tree, rfl⟩
  | error error =>
    obtain ⟨model, hmodel, hunreserved⟩ := hroot
    cases warrants_of_introspect hresult with
    | unknownRoot hnone => cases hmodel.symm.trans hnone
    | reservedFieldName hsame hfield hkey =>
      cases hmodel.symm.trans hsame
      exact absurd (StructuralKey.isReserved_iff.mpr ⟨_, hkey⟩) (hunreserved _ hfield)
    | @duplicateField type name model hreach hsame hcount =>
      obtain ⟨found, hfound, hdistinct⟩ := hdefined type hreach
      cases hsame.symm.trans hfound
      have honce := List.nodup_iff_count_le_one.mp hdistinct name
      omega
    | unknownType hreach hreferrer hfield hmentions hnone =>
      have hrefers : catalog.Refers _ _ := ⟨_, hreferrer, _, hfield, hmentions⟩
      obtain ⟨found, hfound, -⟩ := hdefined _ (hreach.tail hrefers)
      cases hnone.symm.trans hfound
    | cycle hreach _ hchain => exact .inr ⟨_, _, rfl, hreach, transGen_of_isChain hchain⟩

/-- Whatever an introspection is refused for is the matter with the catalog. And where it succeeds,
nothing but a cycle can be: the root is defined and uses no reserved name, and every type reachable
from it is defined with distinct fields. -/
theorem warranted_refusal (catalog : Catalog) (registry : Registry) (root : String) :
    (∀ error, catalog.introspect registry root = .error error → catalog.Warrants root error) ∧
      ∀ tree, catalog.introspect registry root = .ok tree →
        catalog.CanBeRoot root ∧ ∀ type, catalog.Reaches root type →
          ∃ model, catalog.get? type = some model ∧ model.HasDistinctFields := by
  constructor
  · exact fun error => warrants_of_introspect
  · intro tree htree
    exact ⟨canBeRoot_of_introspect htree, (SchemaTree.mirrors_of_introspect htree).defined⟩

/-- A plan of shifts, each of which has one worker. A worker may be on one shift, and the kind says
of what else a worker may be on. -/
def shiftPlan (otherwise : Kind) : Catalog :=
  .ofModels [
    { name := "Plan", fields := [{ name := "shifts", kind := .collection (.reference "Shift") }] },
    { name := "Shift", fields := [{ name := "worker", kind := .reference "Worker" }] },
    { name := "Worker", fields := [
      { name := "on", kind := .union [.reference "Shift", otherwise] }] }]

/-- A worker who must be on a shift or on call needs another worker, and one who may be on nothing
needs none. -/
theorem warranted_refusal_shiftPlan :
    ((shiftPlan (.scalar .string)).introspect ∅ "Plan" =
        .error (.cycle ["Shift", "Worker", "Shift"]) ∧
      (shiftPlan (.scalar .string)).Warrants "Plan" (.cycle ["Shift", "Worker", "Shift"])) ∧
      ∃ tree, (shiftPlan .null).introspect ∅ "Plan" = .ok tree ∧
        (shiftPlan .null).CanBeRoot "Plan" ∧ (shiftPlan .null).Reaches "Plan" "Shift" ∧
        ∃ model, (shiftPlan .null).get? "Shift" = some model ∧ model.HasDistinctFields := by
  have hrefused : (shiftPlan (.scalar .string)).introspect ∅ "Plan" =
      .error (.cycle ["Shift", "Worker", "Shift"]) := by cbv
  have hok : ((shiftPlan .null).introspect ∅ "Plan").isOk = true := by cbv
  have hrefers : (shiftPlan .null).Refers "Plan" "Shift" :=
    ⟨_, by cbv, { name := "shifts", kind := .collection (.reference "Shift") }, by simp,
      .collection .reference⟩
  obtain ⟨tree, htree⟩ := Outcome.exists_of_isOk hok
  obtain ⟨hroot, hdefined⟩ := (warranted_refusal (shiftPlan .null) ∅ "Plan").2 tree htree
  exact ⟨⟨hrefused, (warranted_refusal (shiftPlan (.scalar .string)) ∅ "Plan").1 _ hrefused⟩,
    tree, htree, hroot, .single hrefers, hdefined "Shift" (.single hrefers)⟩

end Catalog

end LinkedSchema
