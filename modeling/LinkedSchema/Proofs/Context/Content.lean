import LinkedSchema.Proofs.Context.Accounted
import Mathlib

/-!
# What a context says

The terms of a scope are the fields of its type that have an identifier and the types with a class
identifier that the type refers to, and in the scope of the root also what the vocabulary and the
class of the root introduce. Each stands for the identifier that is registered for it. The types
with a scope somewhere in the context are those to which references lead from the root through types
with class identifiers, as far as anything is registered for their fields and references.
-/

namespace LinkedSchema

namespace Catalog

/-- What is registered for the terms of a type: the identifiers of its fields, and the class
identifiers of the types to which it refers. -/
inductive Registers (catalog : Catalog) (registry : Registry) (type : String) :
    String → String → Prop
  | field {model : Model} {field : FieldDecl} {id : String} : catalog.get? type = some model →
    field ∈ model.fields → registry.fieldId? type field.name = some id →
    Registers catalog registry type field.name id
  | reference {target id : String} : catalog.Refers type target →
    registry.classId? target = some id → Registers catalog registry type target id

end Catalog

namespace Context

variable {tree : SchemaTree} {registry annotations : Registry} {vocabulary : Vocabulary}
  {context scope : Scope} {memo : ContextMemo} {catalog : Catalog} {root type : String}

/-- What is registered for the terms of a reachable type is what its definition identifies and links
to. -/
theorem registers_iff (hmirrors : tree.Mirrors catalog annotations root)
    (hreach : catalog.Reaches root type) {term id : String} :
    catalog.Registers registry type term id ↔ Identifies tree registry type term id ∨
      Links tree registry type term ∧ registry.classId? term = some id := by
  rw [identifies_iff hmirrors hreach, links_iff hmirrors hreach]
  constructor
  · intro hregisters
    cases hregisters with
    | field hmodel hfield hid => exact .inl ⟨_, hmodel, _, hfield, rfl, hid⟩
    | reference hrefers hid => exact .inr ⟨⟨hrefers, _, hid⟩, hid⟩
  · rintro (⟨model, hmodel, field, hfield, rfl, hid⟩ | ⟨⟨hrefers, -⟩, hid⟩)
    · exact .field hmodel hfield hid
    · exact .reference hrefers hid

namespace Accounted

/-- The types whose scope is kept are reachable. -/
theorem reaches_of_kept (h : Accounted tree registry vocabulary context memo)
    (hmirrors : tree.Mirrors catalog annotations root)
    (hkept : memo.scopes.get? type = some scope) : catalog.Reaches root type := by
  obtain ⟨definition, hdefinition, -⟩ := h.origin type scope hkept
  exact (hmirrors.get?_iff.mp hdefinition).1

/-- A type has a scope in the context exactly if it is not the root, has a class identifier, can be
reached from the root through such types, and has a term. -/
theorem occurs_iff (h : Accounted tree registry vocabulary context memo)
    (hmirrors : tree.Mirrors catalog annotations root) :
    (∃ inner : Scope, inner.Occurs type context) ↔
      type ≠ root ∧ (∃ id, registry.classId? type = some id) ∧
        Relation.ReflTransGen (catalog.RefersToClass registry) root type ∧
        ∃ term id, catalog.Registers registry type term id := by
  rw [h.exists_occurs_iff, leadsInside_iff, linked_iff hmirrors, hmirrors.root_name]
  have hterms : Relation.ReflTransGen (catalog.RefersToClass registry) root type →
      (HasTerms tree registry type ↔ ∃ term id, catalog.Registers registry type term id) := by
    intro hleads
    have hreach : catalog.Reaches root type :=
      Relation.ReflTransGen.mono (fun _ _ hrefers => hrefers.1) _ _ hleads
    simp only [registers_iff hmirrors hreach, HasTerms]
    constructor
    · rintro ⟨term, ⟨id, hfield⟩ | hlink⟩
      · exact ⟨term, id, .inl hfield⟩
      · obtain ⟨id, hid⟩ := hlink.exists_classId
        exact ⟨term, id, .inr ⟨hlink, hid⟩⟩
    · rintro ⟨term, id, hfield | ⟨hlink, -⟩⟩
      · exact ⟨term, .inl ⟨id, hfield⟩⟩
      · exact ⟨term, .inr hlink⟩
  constructor
  · rintro ⟨⟨hne, hleads⟩, howned⟩
    obtain ⟨-, -, -, hclass⟩ := (Relation.ReflTransGen.cases_tail hleads).resolve_left hne
    exact ⟨hne, hclass, hleads, (hterms hleads).mp howned⟩
  · rintro ⟨hne, -, hleads, hregisters⟩
    exact ⟨⟨hne, hleads⟩, (hterms hleads).mpr hregisters⟩

end Accounted

/-- A context says exactly what is registered for a catalog and what is introduced for a root. -/
structure Faithful (catalog : Catalog) (registry : Registry) (vocabulary : Vocabulary)
    (root : String) (context : Scope) : Prop where
  /-- A scoped term carries the class identifier of its type. -/
  class_of_scoped : ∀ type scope, context.StandsFor root type scope →
    ∀ term id inner, scope.get? term = some (.scoped id inner) → registry.classId? term = some id
  /-- All scopes of one type are the same. -/
  eq_of_occurs : ∀ type (inner other : Scope), inner.Occurs type context →
    other.Occurs type context → inner = other
  /-- A scope has each of its terms once. -/
  nodup_terms : ∀ type scope, context.StandsFor root type scope → scope.terms.Nodup
  /-- The terms of a scope are those with something registered, or introduced for the root. -/
  id?_iff : ∀ type scope, context.StandsFor root type scope → ∀ term id,
    scope.id? term = some id ↔ catalog.Registers registry type term id ∨
      type = root ∧ vocabulary.Introduces registry root term id
  /-- The fields of a type are plain terms. -/
  get?_field : ∀ type scope, context.StandsFor root type scope →
    ∀ model, catalog.get? type = some model → ∀ field ∈ model.fields, ∀ id,
      registry.fieldId? type field.name = some id → scope.get? field.name = some (.iri id)
  /-- What is introduced is a plain term. -/
  get?_introduced : ∀ term id, vocabulary.Introduces registry root term id →
    context.get? term = some (.iri id)
  /-- The types with a scope are those with a class identifier and a term to which references lead
  from the root through types with class identifiers. -/
  occurs_iff : ∀ type, (∃ inner : Scope, inner.Occurs type context) ↔
    type ≠ root ∧ (∃ id, registry.classId? type = some id) ∧
      Relation.ReflTransGen (catalog.RefersToClass registry) root type ∧
      ∃ term id, catalog.Registers registry type term id

/-- The context of an introspected tree says exactly what is registered. -/
theorem faithful_of_build (htree : catalog.introspect annotations root = .ok tree)
    (hbuild : build tree registry vocabulary = .ok context) :
    Faithful catalog registry vocabulary root context := by
  have hmirrors := SchemaTree.mirrors_of_introspect htree
  obtain ⟨memo, haccounted⟩ := exists_accounted_of_build hmirrors.get?_root hbuild
  obtain rfl := hmirrors.root_name
  constructor
  case class_of_scoped =>
    intro type scope hstands term id inner hterm
    obtain ⟨-, hid, -⟩ := haccounted.links_of_scoped (haccounted.get?_of_standsFor hstands) hterm
    exact hid
  case eq_of_occurs =>
    intro type inner other hinner hother
    have hkept := haccounted.get?_of_occurs haccounted.root hinner
    exact Option.some.inj (hkept.symm.trans (haccounted.get?_of_occurs haccounted.root hother))
  case nodup_terms =>
    intro type scope hstands
    exact haccounted.nodup type scope (haccounted.get?_of_standsFor hstands)
  case id?_iff =>
    intro type scope hstands term id
    have hkept := haccounted.get?_of_standsFor hstands
    rw [registers_iff hmirrors (haccounted.reaches_of_kept hmirrors hkept),
      haccounted.id?_iff hkept, Fixes, or_right_comm]
  case get?_field =>
    intro type scope hstands model hmodel field hfield id hid
    have hkept := haccounted.get?_of_standsFor hstands
    have hreach := haccounted.reaches_of_kept hmirrors hkept
    exact haccounted.get?_of_identifies hkept
      ((identifies_iff hmirrors hreach).mpr ⟨model, hmodel, field, hfield, rfl, hid⟩)
  case get?_introduced => exact haccounted.introduced
  case occurs_iff => exact fun type => haccounted.occurs_iff hmirrors

/-- A run of a program, after earlier runs. A program may use others. -/
def repeatedRuns : Catalog :=
  .ofModels [
    { name := "Run", fields := [
      { name := "program", kind := .reference "Program" },
      { name := "earlier", kind := .collection (.reference "Run"), default := some (.arr []) }] },
    { name := "Program", fields := [
      { name := "version", kind := .scalar .string },
      { name := "uses", kind := .collection (.reference "Program"), default := some (.arr []) }] }]

/-- Class identifiers for runs and programs, and an identifier for the version of a program. -/
def versionRegistry : Registry :=
  ((Registry.empty.putClass "Run" "cw:Run").putClass "Program" "cw:Program").putField
    "Program" "version" { id := some "cw:version" }

/-- The context of runs of programs that use programs is faithful. -/
theorem faithful_of_build_repeatedRuns :
    ∃ tree context, repeatedRuns.introspect versionRegistry "Run" = .ok tree ∧
      build tree versionRegistry {} = .ok context ∧
      Faithful repeatedRuns versionRegistry {} "Run" context := by
  have hok : ∃ tree context, repeatedRuns.introspect versionRegistry "Run" = .ok tree ∧
      build tree versionRegistry {} = .ok context :=
    ⟨_, _, by cbv, by cbv⟩
  obtain ⟨tree, context, htree, hbuild⟩ := hok
  exact ⟨tree, context, htree, hbuild, faithful_of_build htree hbuild⟩

end Context

end LinkedSchema
