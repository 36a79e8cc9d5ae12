import LinkedSchema.Proofs.Introspection.Reached
import LinkedSchema.Proofs.Kind.Normal

/-!
# The tree of an introspection

An introspected tree is an image of the catalog: its root is the image of the root model, and its
nested types are the types to which one or more references lead from the root, each with the image
of its model. So every type that is mentioned anywhere in the tree is one of the nested types.
-/

namespace LinkedSchema

namespace TypeDefinition

/-- The image of a model refers to the types that the model mentions. -/
theorem refersTo_ofModel_iff {registry : Registry} {model : Model} {type : String} :
    (ofModel registry model).refersTo type = true ↔
      ∃ field ∈ model.fields, field.kind.Mentions type := by
  simp only [refersTo, ofModel, List.any_map, List.any_eq_true, Function.comp_apply,
    Property.ofDecl, List.contains_iff_mem, Kind.mem_referenced_iff, Kind.mentions_normalize_iff]

end TypeDefinition

namespace SchemaTree

/-- Definitions of models with distinct names are found under the names of the models. -/
theorem get?_ofList_ofModel_iff {registry : Registry} {models : List Model}
    (hnodup : (models.map (·.name)).Nodup) {name : String} {definition : TypeDefinition} :
    (Directory.ofList ((models.map (TypeDefinition.ofModel registry)).map fun definition =>
        (definition.name, definition))).get? name = some definition ↔
      ∃ model ∈ models, model.name = name ∧ definition = .ofModel registry model := by
  have hentries : (models.map (TypeDefinition.ofModel registry)).map
      (fun definition => (definition.name, definition)) =
        models.map fun model => (model.name, TypeDefinition.ofModel registry model) := by
    simp [TypeDefinition.ofModel]
  have hkeys : ((models.map fun model =>
      (model.name, TypeDefinition.ofModel registry model)).map Prod.fst).Nodup := by
    simpa [Function.comp_def] using hnodup
  rw [hentries, Directory.get?_ofList hkeys]
  constructor
  · intro h
    obtain ⟨model, hmodel, heq⟩ := List.mem_map.mp (Table.mem_of_get? h)
    obtain ⟨rfl, rfl⟩ := Prod.mk.inj heq
    exact ⟨model, hmodel, rfl, rfl⟩
  · rintro ⟨model, hmodel, rfl, rfl⟩
    exact Table.get?_of_mem hkeys (List.mem_map_of_mem hmodel)

/-- The nested types of a tree of models are these models, the root only if one of them refers to
it. -/
theorem nested_get?_ofModels_iff {registry : Registry} {root : Model} {reached : List Model}
    (hnodup : (reached.map (·.name)).Nodup) {name : String} {definition : TypeDefinition} :
    (ofModels registry root reached).nested.get? name = some definition ↔
      (∃ model ∈ reached, model.name = name ∧ definition = .ofModel registry model) ∧
        (name = root.name → ∃ model ∈ reached, ∃ field ∈ model.fields,
          field.kind.Mentions root.name) := by
  have hget := @get?_ofList_ofModel_iff registry reached hnodup name definition
  have hrefers : (reached.map (TypeDefinition.ofModel registry)).any (·.refersTo root.name) = true ↔
      ∃ model ∈ reached, ∃ field ∈ model.fields, field.kind.Mentions root.name := by
    simp only [List.any_map, List.any_eq_true, Function.comp_apply,
      TypeDefinition.refersTo_ofModel_iff]
  simp only [ofModels]
  split
  · next hany =>
    rw [hget]
    exact ⟨fun h => ⟨h, fun _ => hrefers.mp hany⟩, And.left⟩
  · next hnone =>
    rw [Directory.get?_erase]
    by_cases hname : root.name = name
    · simp only [hname, if_true, reduceCtorEq, false_iff, not_and, true_implies]
      exact fun _ hmentions => hnone (hrefers.mpr (hname ▸ hmentions))
    · rw [if_neg hname, hget]
      exact ⟨fun h => ⟨h, fun heq => absurd heq.symm hname⟩, And.left⟩

/-- A tree is the image of what is reachable from a root in a catalog. -/
structure Mirrors (tree : SchemaTree) (catalog : Catalog) (registry : Registry) (root : String) :
    Prop where
  root_eq : ∃ model, catalog.get? root = some model ∧ tree.root = .ofModel registry model
  nested_iff : ∀ name definition, tree.nested.get? name = some definition ↔
    Relation.TransGen catalog.Refers root name ∧
      ∃ model, catalog.get? name = some model ∧ definition = .ofModel registry model
  defined : ∀ type, catalog.Reaches root type →
    ∃ model, catalog.get? type = some model ∧ model.HasDistinctFields

/-- Introspection gives the image of what is reachable from the root. -/
theorem mirrors_of_introspect {catalog : Catalog} {registry : Registry} {root : String}
    {tree : SchemaTree} (h : catalog.introspect registry root = .ok tree) :
    tree.Mirrors catalog registry root := by
  obtain ⟨model, reached, hexplore, rfl⟩ := Catalog.exists_explore_of_introspect h
  obtain ⟨hroot, hmem, hprogress⟩ := Catalog.progress_of_explore hexplore
  have hname := Catalog.name_of_get? hroot
  have hnames : root ∈ reached.map (·.name) := List.mem_map.mpr ⟨model, hmem, hname⟩
  refine ⟨⟨model, hroot, rfl⟩, ?_, ?_⟩
  · intro name definition
    rw [nested_get?_ofModels_iff hprogress.nodup, hname, hprogress.transGen_iff hnames]
    constructor
    · rintro ⟨⟨other, hother, rfl, rfl⟩, hself⟩
      exact ⟨⟨List.mem_map_of_mem hother, hself⟩, other, hprogress.defined other hother, rfl⟩
    · rintro ⟨⟨hreached, hself⟩, other, hother, rfl⟩
      obtain rfl := Catalog.name_of_get? hother
      exact ⟨⟨other, hprogress.mem_iff.mpr ⟨hreached, hother⟩, rfl, rfl⟩, hself⟩
  · intro type htype
    have hreached := (hprogress.mem_names_iff_reaches hnames).mpr htype
    obtain ⟨other, hother, rfl⟩ := List.mem_map.mp hreached
    exact ⟨other, hprogress.defined other hother, hprogress.hasDistinctFields hother⟩

namespace Mirrors

variable {tree : SchemaTree} {catalog : Catalog} {registry : Registry} {root : String}

/-- The root definition stands under the name of the root. -/
theorem root_name (h : tree.Mirrors catalog registry root) : tree.root.name = root := by
  obtain ⟨model, hmodel, heq⟩ := h.root_eq
  rw [heq]
  exact Catalog.name_of_get? hmodel

/-- A definition is found for exactly the reachable types, and it is the image of the model. -/
theorem get?_iff (h : tree.Mirrors catalog registry root) {name : String}
    {definition : TypeDefinition} :
    tree.get? name = some definition ↔ catalog.Reaches root name ∧
      ∃ model, catalog.get? name = some model ∧ definition = .ofModel registry model := by
  obtain ⟨model, hmodel, heq⟩ := h.root_eq
  unfold get?
  constructor
  · intro hget
    split at hget
    · next nested hnested =>
      obtain rfl : nested = definition := Option.some.inj hget
      obtain ⟨hleads, hother⟩ := (h.nested_iff name nested).mp hnested
      exact ⟨hleads.to_reflTransGen, hother⟩
    · split at hget
      · next hname =>
        rw [h.root_name] at hname
        subst hname
        exact ⟨.refl, model, hmodel, (Option.some.inj hget).symm.trans heq⟩
      · cases hget
  · rintro ⟨hreach, other, hother, rfl⟩
    split
    · next nested hnested =>
      obtain ⟨-, found, hfound, rfl⟩ := (h.nested_iff name nested).mp hnested
      rw [hother] at hfound
      rw [Option.some.inj hfound]
    · next hnone =>
      rcases Relation.reflTransGen_iff_eq_or_transGen.mp hreach with rfl | hleads
      · rw [if_pos h.root_name, heq]
        rw [hmodel] at hother
        rw [Option.some.inj hother]
      · have hsome := (h.nested_iff name _).mpr ⟨hleads, other, hother, rfl⟩
        rw [hnone] at hsome
        cases hsome

/-- A definition is found under its own name. -/
theorem name_of_get? (h : tree.Mirrors catalog registry root) {name : String}
    {definition : TypeDefinition} (hget : tree.get? name = some definition) :
    definition.name = name := by
  obtain ⟨-, model, hmodel, rfl⟩ := h.get?_iff.mp hget
  exact Catalog.name_of_get? hmodel

/-- The definition of the root is found under its name. -/
theorem get?_root (h : tree.Mirrors catalog registry root) :
    tree.get? tree.root.name = some tree.root := by
  obtain ⟨model, hmodel, heq⟩ := h.root_eq
  rw [h.root_name]
  exact h.get?_iff.mpr ⟨.refl, model, hmodel, heq⟩

/-- What a definition of the tree mentions is a nested type. -/
theorem exists_nested_of_mentions (h : tree.Mirrors catalog registry root) {name : String}
    {definition : TypeDefinition} (hget : tree.get? name = some definition) {field : Property}
    (hfield : field ∈ definition.fields) {target : String}
    (hmentions : field.kind.Mentions target) :
    ∃ nested, tree.nested.get? target = some nested := by
  obtain ⟨hreach, model, hmodel, rfl⟩ := h.get?_iff.mp hget
  obtain ⟨declared, hdeclared, rfl⟩ := List.mem_map.mp hfield
  have hrefers : catalog.Refers name target :=
    ⟨model, hmodel, declared, hdeclared, Kind.mentions_normalize_iff.mp hmentions⟩
  obtain ⟨other, hother, -⟩ := h.defined target (hreach.tail hrefers)
  exact ⟨_, (h.nested_iff target _).mpr ⟨.tail' hreach hrefers, other, hother, rfl⟩⟩

end Mirrors

end SchemaTree

end LinkedSchema
