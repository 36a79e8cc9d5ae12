import LinkedSchema.Proofs.Introspection.Tree
import LinkedSchema.Proofs.Schema.Fragments

/-!
# Closed trees

A closed tree has a nested type for every type that is mentioned anywhere in it, requires exactly
the fields without a default, and gives no type two fields of one name. The tree of an introspection
is closed.
-/

namespace LinkedSchema

/-- A kind stands somewhere in another. -/
inductive Kind.IsPart (part : Kind) : Kind → Prop
  | self : IsPart part part
  | collection {item : Kind} : IsPart part item → IsPart part (.collection item)
  | union {members : List Kind} {kind : Kind} : kind ∈ members → IsPart part kind →
    IsPart part (.union members)
  | nullable {inner : Kind} : IsPart part inner → IsPart part (.nullable inner)

/-- A kind mentions what its parts mention. -/
theorem Kind.IsPart.mentions {part kind : Kind} {target : String} (h : part.IsPart kind)
    (hmentions : part.Mentions target) : kind.Mentions target := by
  induction h with
  | self => exact hmentions
  | collection _ ih => exact .collection ih
  | union hmem _ ih => exact .union hmem ih
  | nullable _ ih => exact .nullable ih

namespace SchemaTree

/-- The schemas of the nested types under their names. -/
def definitions (tree : SchemaTree) : Table Json :=
  tree.nested.entries.map fun entry => (entry.1, entry.2.schema)

/-- The schema under a name is that of the nested type of the name. -/
theorem get?_definitions (tree : SchemaTree) (name : String) :
    Table.get? tree.definitions name = (tree.nested.get? name).map (·.schema) := by
  rw [definitions, Directory.get?]
  induction tree.nested.entries with
  | nil => rfl
  | cons entry entries ih =>
    obtain ⟨first, definition⟩ := entry
    rw [List.map_cons, Table.get?_cons, Table.get?_cons, ih]
    split <;> rfl

/-- A definition stands in a tree, at the root or for a nested type. -/
def Holds (tree : SchemaTree) (definition : TypeDefinition) : Prop :=
  definition = tree.root ∨ ∃ name, tree.nested.get? name = some definition

/-- What is found under a name stands in the tree. -/
theorem holds_of_get? {tree : SchemaTree} {definition : TypeDefinition} {name : String}
    (h : tree.get? name = some definition) : tree.Holds definition := by
  unfold SchemaTree.get? at h
  split at h
  · next nested hnested => exact .inr ⟨name, hnested.trans h⟩
  · split at h
    · exact .inl (Option.some.inj h).symm
    · cases h

/-- A kind occurs in a tree, at any depth of the kind of a field. -/
def HasKind (tree : SchemaTree) (kind : Kind) : Prop :=
  ∃ definition, tree.Holds definition ∧ ∃ field ∈ definition.fields, kind.IsPart field.kind

/-- What the definitions of a tree need for checks and schemas to agree. -/
structure IsClosed (tree : SchemaTree) : Prop where
  distinct : ∀ definition, tree.Holds definition → definition.HasDistinctFields
  required : ∀ definition, tree.Holds definition → ∀ field ∈ definition.fields,
    (field.required = true ↔ field.default = none)
  defined : ∀ definition, tree.Holds definition → ∀ field ∈ definition.fields,
    ∀ target, field.kind.Mentions target → ∃ nested, tree.nested.get? target = some nested

/-- In the image of what is reachable a definition is found under its name. -/
theorem Mirrors.get?_of_holds {tree : SchemaTree} {catalog : Catalog} {registry : Registry}
    {root : String} (h : tree.Mirrors catalog registry root) {definition : TypeDefinition}
    (hdefinition : tree.Holds definition) : tree.get? definition.name = some definition := by
  rcases hdefinition with rfl | ⟨name, hnested⟩
  · exact h.get?_root
  · have hget : tree.get? name = some definition := by rw [SchemaTree.get?, hnested]
    rw [h.name_of_get? hget]
    exact hget

/-- The image of what is reachable is closed. -/
theorem Mirrors.isClosed {tree : SchemaTree} {catalog : Catalog} {registry : Registry}
    {root : String} (h : tree.Mirrors catalog registry root) : tree.IsClosed := by
  have himage : ∀ definition, tree.Holds definition →
      ∃ model : Model, model.HasDistinctFields ∧ definition = .ofModel registry model := by
    intro definition hdefinition
    obtain ⟨hreach, model, hmodel, heq⟩ := h.get?_iff.mp (h.get?_of_holds hdefinition)
    obtain ⟨found, hfound, hdistinct⟩ := h.defined definition.name hreach
    obtain rfl : model = found := Option.some.inj (hmodel.symm.trans hfound)
    exact ⟨model, hdistinct, heq⟩
  refine ⟨?_, ?_, ?_⟩
  · intro definition hdefinition
    obtain ⟨model, hdistinct, rfl⟩ := himage definition hdefinition
    simpa [TypeDefinition.HasDistinctFields, TypeDefinition.ofModel, Property.ofDecl,
      Function.comp_def, Model.HasDistinctFields] using hdistinct
  · intro definition hdefinition field hfield
    obtain ⟨model, -, rfl⟩ := himage definition hdefinition
    obtain ⟨declared, -, rfl⟩ := List.mem_map.mp hfield
    simp [Property.ofDecl, FieldDecl.isRequired]
  · intro definition hdefinition field hfield target hmentions
    exact h.exists_nested_of_mentions (h.get?_of_holds hdefinition) hfield hmentions

/-- Every type that a kind mentions is a nested type. -/
def Defines (tree : SchemaTree) (kind : Kind) : Prop :=
  ∀ target, kind.Mentions target → ∃ nested, tree.nested.get? target = some nested

end SchemaTree

end LinkedSchema
