import LinkedSchema.Proofs.Introspection.Refusal
import LinkedSchema.Proofs.Introspection.Tree

/-!
# The order of declaration in an introspection

Two catalogs may differ in the order of the fields of their models only. References lead the same
ways in both, so where these make no loop of direct references an introspection succeeds for both or
for none. Where both succeed, the trees differ in the order of the fields of their definitions only.
-/

namespace LinkedSchema

/-- What is found on one side has its counterpart on the other. -/
theorem exists_of_rel {α β : Type} {R : α → β → Prop} {left : Option α} {right : Option β}
    (h : Option.Rel R left right) {a : α} (ha : left = some a) : ∃ b, right = some b ∧ R a b := by
  cases h with
  | some hrelated =>
    cases ha
    exact ⟨_, rfl, hrelated⟩
  | none => cases ha

/-- Where counterparts go both ways, so do look-ups. -/
theorem rel_symm {α β : Type} {R : α → β → Prop} {S : β → α → Prop} {left : Option α}
    {right : Option β} (hsymm : ∀ a b, R a b → S b a) (h : Option.Rel R left right) :
    Option.Rel S right left := by
  cases h with
  | some hrelated => exact .some (hsymm _ _ hrelated)
  | none => exact .none

/-- Two models have one name and the same fields in some order. -/
structure Model.Reordered (model other : Model) : Prop where
  name : model.name = other.name
  fields : model.fields.Perm other.fields

/-- Two definitions have one name and the same fields in some order. -/
structure TypeDefinition.Reordered (definition other : TypeDefinition) : Prop where
  name : definition.name = other.name
  fields : definition.fields.Perm other.fields

/-- Two catalogs define the same types, each with the same fields in some order. -/
def Catalog.Reordered (catalog other : Catalog) : Prop :=
  ∀ name, Option.Rel Model.Reordered (catalog.get? name) (other.get? name)

/-- Two trees have the same root and nested types, each with the same fields in some order. -/
structure SchemaTree.Reordered (tree other : SchemaTree) : Prop where
  root : tree.root.Reordered other.root
  nested : ∀ name,
    Option.Rel TypeDefinition.Reordered (tree.nested.get? name) (other.nested.get? name)

/-- Reordering a model goes both ways. -/
theorem Model.Reordered.symm {model other : Model} (h : model.Reordered other) :
    other.Reordered model :=
  ⟨h.name.symm, h.fields.symm⟩

/-- So does reordering a definition. -/
theorem TypeDefinition.Reordered.symm {definition other : TypeDefinition}
    (h : definition.Reordered other) : other.Reordered definition :=
  ⟨h.name.symm, h.fields.symm⟩

/-- The definitions of reordered models are reordered. -/
theorem Model.Reordered.definition {model other : Model} (h : model.Reordered other)
    (registry : Registry) :
    (TypeDefinition.ofModel registry model).Reordered (.ofModel registry other) where
  name := h.name
  fields := by
    rw [TypeDefinition.ofModel, TypeDefinition.ofModel, h.name]
    exact h.fields.map _

namespace Catalog

variable {catalog other : Catalog} {registry : Registry} {root : String}

/-- Reordering goes both ways. -/
theorem Reordered.symm (h : catalog.Reordered other) : other.Reordered catalog :=
  fun name => rel_symm (fun _ _ hmodels => hmodels.symm) (h name)

/-- What is required of some field of a type holds in one catalog if it does in the other. -/
theorem Reordered.exists_field (h : catalog.Reordered other) {type : String}
    {holds : FieldDecl → Prop}
    (hfield : ∃ model, catalog.get? type = some model ∧ ∃ field ∈ model.fields, holds field) :
    ∃ model, other.get? type = some model ∧ ∃ field ∈ model.fields, holds field := by
  obtain ⟨model, hmodel, field, hfield, hholds⟩ := hfield
  obtain ⟨found, hfound, hmodels⟩ := exists_of_rel (h _) hmodel
  exact ⟨found, hfound, field, hmodels.fields.mem_iff.mp hfield, hholds⟩

/-- Types refer to the same types in both catalogs. -/
theorem Reordered.refers_eq (h : catalog.Reordered other) : catalog.Refers = other.Refers := by
  funext type target
  exact propext ⟨h.exists_field, h.symm.exists_field⟩

/-- Types refer directly to the same types in both catalogs. -/
theorem Reordered.refersDirectly_eq (h : catalog.Reordered other) :
    catalog.RefersDirectly = other.RefersDirectly := by
  funext type target
  exact propext ⟨h.exists_field, h.symm.exists_field⟩

/-- References lead to the same types in both catalogs. -/
theorem Reordered.reaches_eq (h : catalog.Reordered other) : catalog.Reaches = other.Reaches := by
  unfold Reaches
  rw [h.refers_eq]

/-- No type that the root reaches lies on a closed walk of direct references. -/
def IsLoopFree (catalog : Catalog) (root : String) : Prop :=
  ∀ type, catalog.Reaches root type → ¬ Relation.TransGen catalog.RefersDirectly type type

/-- Where all references are indirect, there is no loop of direct ones. -/
theorem isLoopFree_of_indirect (h : ∀ entry ∈ catalog.models.entries, ∀ field ∈ entry.2,
    ∀ edge ∈ field.kind.edges false, edge.2 = true) : catalog.IsLoopFree root := by
  rintro type - hloop
  obtain ⟨target, ⟨model, hmodel, field, hfield, hdirect⟩, -⟩ :=
    Relation.TransGen.head'_iff.mp hloop
  obtain ⟨fields, hfields, rfl⟩ := Option.map_eq_some_iff.mp hmodel
  have hedge := (@Kind.mem_edges_false_iff target field.kind false).mpr ⟨rfl, hdirect⟩
  cases h (type, fields) (Directory.mem_entries_iff.mpr hfields) field hfield _ hedge

/-- The order of fields makes no loop of direct references. -/
theorem Reordered.isLoopFree (h : catalog.Reordered other) (hfree : catalog.IsLoopFree root) :
    other.IsLoopFree root := by
  unfold IsLoopFree at hfree ⊢
  rwa [← h.reaches_eq, ← h.refersDirectly_eq]

/-- A type that can be the root of one catalog can be the root of the other. -/
theorem Reordered.canBeRoot (h : catalog.Reordered other) (hroot : catalog.CanBeRoot root) :
    other.CanBeRoot root := by
  obtain ⟨model, hmodel, hunreserved⟩ := hroot
  obtain ⟨found, hfound, hmodels⟩ := exists_of_rel (h _) hmodel
  exact ⟨found, hfound, fun field hfield =>
    hunreserved field (hmodels.fields.mem_iff.mpr hfield)⟩

/-- Types that are defined with distinct fields in one catalog are so in the other. -/
theorem Reordered.specified (h : catalog.Reordered other) {type : String}
    (hdefined : ∃ model, catalog.get? type = some model ∧ model.HasDistinctFields) :
    ∃ model, other.get? type = some model ∧ model.HasDistinctFields := by
  obtain ⟨model, hmodel, hdistinct⟩ := hdefined
  obtain ⟨found, hfound, hmodels⟩ := exists_of_rel (h _) hmodel
  exact ⟨found, hfound, (hmodels.fields.map FieldDecl.name).nodup_iff.mp hdistinct⟩

end Catalog

namespace SchemaTree

variable {tree other : SchemaTree}

/-- Reordering a tree goes both ways. -/
theorem Reordered.symm (h : tree.Reordered other) : other.Reordered tree where
  root := h.root.symm
  nested := fun name => rel_symm (fun _ _ hdefinitions => hdefinitions.symm) (h.nested name)

/-- A name has a definition in one tree exactly if it has one in the other, and with the same fields
in some order. -/
theorem Reordered.get? (h : tree.Reordered other) (name : String) :
    Option.Rel TypeDefinition.Reordered (tree.get? name) (other.get? name) := by
  have hnested := h.nested name
  unfold SchemaTree.get?
  revert hnested
  cases tree.nested.get? name <;> cases other.nested.get? name <;> rintro ⟨⟩
  · simp only [← h.root.name]
    by_cases hname : tree.root.name = name
    · rw [if_pos hname, if_pos hname]
      exact .some h.root
    · rw [if_neg hname, if_neg hname]
      exact .none
  · next hdefinitions => exact .some hdefinitions

section Mirrors

variable {catalog counterpart : Catalog} {registry : Registry} {root : String}

/-- A nested type in the image of a catalog has its counterpart in that of a reordered one. -/
theorem Mirrors.exists_nested (h : tree.Mirrors catalog registry root)
    (hother : other.Mirrors counterpart registry root) (hcatalogs : catalog.Reordered counterpart)
    {name : String} {definition : TypeDefinition}
    (hdefinition : tree.nested.get? name = some definition) :
    ∃ found, other.nested.get? name = some found ∧ definition.Reordered found := by
  obtain ⟨hleads, model, hmodel, rfl⟩ := (h.nested_iff name definition).mp hdefinition
  obtain ⟨found, hfound, hmodels⟩ := exists_of_rel (hcatalogs name) hmodel
  rw [hcatalogs.refers_eq] at hleads
  exact ⟨_, (hother.nested_iff name _).mpr ⟨hleads, found, hfound, rfl⟩,
    hmodels.definition registry⟩

/-- The images of reordered catalogs are reordered. -/
theorem Mirrors.reordered (h : tree.Mirrors catalog registry root)
    (hother : other.Mirrors counterpart registry root) (hcatalogs : catalog.Reordered counterpart) :
    tree.Reordered other := by
  refine ⟨?_, ?_⟩
  · obtain ⟨model, hmodel, hroot⟩ := h.root_eq
    obtain ⟨found, hfound, hotherRoot⟩ := hother.root_eq
    obtain ⟨_, hsame, hmodels⟩ := exists_of_rel (hcatalogs root) hmodel
    cases hfound.symm.trans hsame
    rw [hroot, hotherRoot]
    exact hmodels.definition registry
  · intro name
    cases hdefinition : tree.nested.get? name with
    | some definition =>
      obtain ⟨found, hfound, hdefinitions⟩ := h.exists_nested hother hcatalogs hdefinition
      rw [hfound]
      exact .some hdefinitions
    | none =>
      cases hfound : other.nested.get? name with
      | none => exact .none
      | some found =>
        obtain ⟨_, hsome, -⟩ := hother.exists_nested h hcatalogs.symm hfound
        rw [hdefinition] at hsome
        cases hsome

end Mirrors

end SchemaTree

/-- Where introspection succeeds for two reordered catalogs, the trees are reordered. -/
theorem Catalog.Reordered.trees {catalog other : Catalog} {registry : Registry} {root : String}
    {tree found : SchemaTree} (h : catalog.Reordered other)
    (htree : catalog.introspect registry root = .ok tree)
    (hfound : other.introspect registry root = .ok found) : tree.Reordered found :=
  (SchemaTree.mirrors_of_introspect htree).reordered (SchemaTree.mirrors_of_introspect hfound) h

/-- Where introspection succeeds for one catalog and there is no loop of direct references, it
succeeds for a reordered catalog. -/
theorem Catalog.Reordered.introspect {catalog other : Catalog} {registry : Registry} {root : String}
    {tree : SchemaTree} (h : catalog.Reordered other) (hfree : catalog.IsLoopFree root)
    (htree : catalog.introspect registry root = .ok tree) :
    ∃ found, other.introspect registry root = .ok found := by
  have hmirrors := SchemaTree.mirrors_of_introspect htree
  have hdefined : ∀ type, other.Reaches root type →
      ∃ model, other.get? type = some model ∧ model.HasDistinctFields := by
    intro type hreach
    rw [← h.reaches_eq] at hreach
    exact h.specified (hmirrors.defined type hreach)
  rcases introspect_ok_or_loop (h.canBeRoot (canBeRoot_of_introspect htree)) hdefined with
    hfound | ⟨path, type, -, hreach, hloop⟩
  · exact hfound
  · exact absurd hloop (h.isLoopFree hfree type hreach)

end LinkedSchema
