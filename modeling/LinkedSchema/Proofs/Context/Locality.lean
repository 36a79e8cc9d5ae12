import LinkedSchema.Proofs.Context.Complete

/-!
# What a context depends on

The building of a context reads of a type the name of its definition and its claims, and of each
type that is claimed the class identifier. Two trees with two registries that look the same in this
way have the same context, or the same error.
-/

namespace LinkedSchema

/-- The claims of the image of a model depend on the identifiers of its fields only. -/
theorem TypeDefinition.claims_ofModel_congr {annotations others registry annotated : Registry}
    {model : Model} (h : ∀ field ∈ model.fields,
      registry.fieldId? model.name field.name = annotated.fieldId? model.name field.name) :
    (ofModel annotations model).claims registry = (ofModel others model).claims annotated := by
  simp only [claims, ofModel, List.flatMap_map]
  refine List.flatMap_congr fun field hfield => ?_
  simp only [Property.ofDecl, h field hfield]

namespace Context

variable {tree other : SchemaTree} {registry annotated : Registry} {vocabulary : Vocabulary}

/-- What the building of a context reads of a type: the name of its definition and its claims. -/
def reads (tree : SchemaTree) (registry : Registry) (type : String) :
    Option (String × List Claim) :=
  (tree.get? type).map fun definition => (definition.name, definition.claims registry)

/-- What is read of a defined type is its name and its claims. -/
theorem reads_of_get? (registry : Registry) {type : String} {definition : TypeDefinition}
    (h : tree.get? type = some definition) :
    reads tree registry type = some (definition.name, definition.claims registry) := by
  rw [reads, h, Option.map_some]

/-- Two registries give the types that are claimed the same class identifiers. -/
def SameClasses (registry annotated : Registry) (claims : List Claim) : Prop :=
  ∀ target, .type target ∈ claims → registry.classId? target = annotated.classId? target

/-- The type that is claimed first has the same class identifier in both registries. -/
theorem SameClasses.head {type : String} {claims : List Claim} {answer : Option String}
    (h : SameClasses registry annotated (.type type :: claims))
    (hanswer : registry.classId? type = answer) : annotated.classId? type = answer :=
  (h type List.mem_cons_self).symm.trans hanswer

/-- Registries that agree on some claims agree on all but the first. -/
theorem SameClasses.tail {claim : Claim} {claims : List Claim}
    (h : SameClasses registry annotated (claim :: claims)) :
    SameClasses registry annotated claims :=
  fun target htarget => h target (List.mem_cons_of_mem claim htarget)

/-- Two trees with two registries look the same to the building of a context: the same is read of
each type, and the root and all types that are claimed have the same class identifiers. -/
structure Alike (tree other : SchemaTree) (registry annotated : Registry) : Prop where
  root : tree.root.name = other.root.name
  reads (type : String) : Context.reads tree registry type = Context.reads other annotated type
  rootClass : registry.classId? tree.root.name = annotated.classId? tree.root.name
  classes {type name : String} {claims : List Claim} :
    Context.reads tree registry type = some (name, claims) → SameClasses registry annotated claims

/-- A type is noted wherever it has a definition. -/
theorem note_congr (h : ∀ type, reads tree registry type = reads other annotated type)
    (memo : ContextMemo) (type : String) : memo.note tree type = memo.note other type := by
  have hnone : (tree.get? type).isNone = (other.get? type).isNone := by
    simpa [reads] using congrArg Option.isNone (h type)
  rw [ContextMemo.note, ContextMemo.note, hnone]

variable {active : List String} {owner : String} {claims : List Claim} {scope : Scope}
  {memo : ContextMemo} {starts : List Start}
  {outcome : Except (Interruption ContextError ContextMemo) (Scope × ContextMemo)}

/-- A type without a definition in one tree has none in a tree that looks the same. -/
theorem Alike.get?_eq_none (h : Alike tree other registry annotated) {type : String}
    (hundefined : tree.get? type = none) : other.get? type = none := by
  have hreads : Context.reads tree registry type = none := Option.map_eq_none_iff.mpr hundefined
  rw [h.reads] at hreads
  exact Option.map_eq_none_iff.mp hreads

/-- A definition in one tree has a counterpart, with its name and its claims, in a tree that looks
the same. -/
theorem Alike.exists_get? (h : Alike tree other registry annotated) {type : String}
    {definition : TypeDefinition} (hdefinition : tree.get? type = some definition) :
    ∃ found, other.get? type = some found ∧ found.name = definition.name ∧
      found.claims annotated = definition.claims registry := by
  have hreads := reads_of_get? registry hdefinition
  rw [h.reads] at hreads
  obtain ⟨found, hfound, heq⟩ := Option.map_eq_some_iff.mp hreads
  obtain ⟨hname, hclaims⟩ := Prod.mk.inj heq
  exact ⟨found, hfound, hname, hclaims⟩

/-- A claim has the same meaning where the claimed types have the same class identifiers. -/
theorem Assigns.congr {head : Claim} {term : String} {entry : Entry}
    (h : Assigns registry active memo head term entry)
    (hclaims : SameClasses registry annotated (head :: claims)) :
    Assigns annotated active memo head term entry := by
  cases h with
  | field => exact .field
  | active hid hactive => exact .active (hclaims.head hid) hactive
  | kept hid hidle hkept => exact .kept (hclaims.head hid) hidle hkept

/-- A scope that is wanted with one registry is wanted with the other. -/
theorem Wanting.congr {type : String} (h : Wanting registry active memo type)
    (hclaims : SameClasses registry annotated (.type type :: claims)) :
    Wanting annotated active memo type := by
  obtain ⟨id, hid⟩ := h.identified
  exact ⟨⟨id, hclaims.head hid⟩, h.idle, h.missing⟩

/-- Where two trees look the same, a run for one is a run for the other. -/
theorem Run.congr (h : Alike tree other registry annotated)
    (hrun : Run tree registry active owner claims scope memo starts outcome)
    (hclaims : SameClasses registry annotated claims) :
    Run other annotated active owner claims scope memo starts outcome := by
  -- Two lookups could differ, that of a class and that of a definition, and no others are made.
  induction hrun with
  | done => exact .done
  | take hassigns hclaim _ ih => exact .take (hassigns.congr hclaims) hclaim (ih hclaims.tail)
  | refuse hassigns hclaim => exact .refuse (hassigns.congr hclaims) hclaim
  | pass hid _ ih =>
    rw [note_congr h.reads] at ih
    exact .pass (hclaims.head hid) (ih hclaims.tail)
  | undefined hwanting hundefined =>
    exact .undefined (hwanting.congr hclaims) (h.get?_eq_none hundefined)
  | abandon hwanting hdefinition _ ih =>
    have hinner := ih (h.classes (reads_of_get? registry hdefinition))
    obtain ⟨found, hfound, hname, heq⟩ := h.exists_get? hdefinition
    rw [← hname, ← heq] at hinner
    exact .abandon (hwanting.congr hclaims) hfound hinner
  | build hwanting hdefinition _ _ ihinner ih =>
    have hinner := ihinner (h.classes (reads_of_get? registry hdefinition))
    obtain ⟨found, hfound, hname, heq⟩ := h.exists_get? hdefinition
    rw [← hname, ← heq] at hinner
    exact .build (hwanting.congr hclaims) hfound hinner (ih hclaims)

/-- Where two trees look the same, a scope is filled in the same way. -/
theorem fill_congr (h : Alike tree other registry annotated)
    (hclaims : SameClasses registry annotated claims) :
    fill tree registry active owner claims scope memo =
      fill other annotated active owner claims scope memo := by
  obtain ⟨starts, hrun⟩ := exists_run tree registry active owner claims scope memo
  exact (hrun.congr h hclaims).eq_fill

/-- The scope of the root starts with the same terms where the root has the same class. -/
theorem rootScope_congr {root : String}
    (h : registry.classId? root = annotated.classId? root) :
    rootScope registry vocabulary root = rootScope annotated vocabulary root := by
  rw [rootScope, rootScope, h]

/-- Where two trees look the same, they have the same context. -/
theorem build_congr (hroot : tree.get? tree.root.name = some tree.root)
    (hother : other.get? other.root.name = some other.root)
    (h : Alike tree other registry annotated) :
    build tree registry vocabulary = build other annotated vocabulary := by
  have hreads := reads_of_get? registry hroot
  have hclaims : tree.root.claims registry = other.root.claims annotated := by
    have hsame := hreads.symm.trans (h.reads tree.root.name)
    rw [h.root, reads_of_get? annotated hother] at hsame
    exact (Prod.mk.inj (Option.some.inj hsame)).2
  have hfill (scope : Scope) :
      fill tree registry [tree.root.name] tree.root.name (tree.root.claims registry) scope {} =
        fill other annotated [other.root.name] other.root.name (other.root.claims annotated)
          scope {} := by
    rw [fill_congr h (h.classes hreads), hclaims, h.root]
  have hbuild : buildWithMemo tree registry vocabulary =
      buildWithMemo other annotated vocabulary := by
    simp only [buildWithMemo, hfill]
    rw [rootScope_congr h.rootClass, h.root]
  rw [build, build, hbuild]

variable {catalog : Catalog} {annotations others : Registry} {root : String}

/-- Of a reachable type the image of its model is read. -/
theorem reads_eq_some_iff (hmirrors : tree.Mirrors catalog annotations root) {type : String}
    {read : String × List Claim} :
    reads tree registry type = some read ↔ catalog.Reaches root type ∧
      ∃ model, catalog.get? type = some model ∧
        (model.name, (TypeDefinition.ofModel annotations model).claims registry) = read := by
  rw [reads, Option.map_eq_some_iff]
  constructor
  · rintro ⟨definition, hdefinition, rfl⟩
    obtain ⟨hreach, model, hmodel, rfl⟩ := hmirrors.get?_iff.mp hdefinition
    exact ⟨hreach, model, hmodel, rfl⟩
  · rintro ⟨hreach, model, hmodel, rfl⟩
    exact ⟨_, hmirrors.get?_iff.mpr ⟨hreach, model, hmodel, rfl⟩, rfl⟩

/-- Trees of one catalog look the same where the identifiers of all reachable types and of their
fields are the same. -/
theorem alike_of_mirrors (hmirrors : tree.Mirrors catalog annotations root)
    (hother : other.Mirrors catalog others root)
    (hfields : ∀ type model, catalog.Reaches root type → catalog.get? type = some model →
      ∀ field ∈ model.fields,
        registry.fieldId? type field.name = annotated.fieldId? type field.name)
    (hclasses : ∀ type, catalog.Reaches root type →
      registry.classId? type = annotated.classId? type) :
    Alike tree other registry annotated := by
  refine ⟨hmirrors.root_name.trans hother.root_name.symm, ?_, ?_, ?_⟩
  · intro type
    ext read
    rw [reads_eq_some_iff hmirrors, reads_eq_some_iff hother]
    refine and_congr_right fun hreach => exists_congr fun model => and_congr_right fun hmodel => ?_
    obtain rfl := Catalog.name_of_get? hmodel
    rw [TypeDefinition.claims_ofModel_congr (hfields model.name model hreach hmodel)]
  · rw [hmirrors.root_name]
    exact hclasses root .refl
  · intro type name claims hread target hclaim
    obtain ⟨hreach, model, hmodel, heq⟩ := (reads_eq_some_iff hmirrors).mp hread
    cases heq
    have hmentions := TypeDefinition.type_mem_claims_ofModel_iff.mp hclaim
    exact hclasses target (hreach.tail ⟨model, hmodel, hmentions⟩)

end Context

end LinkedSchema
