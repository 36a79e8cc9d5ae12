import LinkedSchema.Proofs.Context.Locality
import LinkedSchema.Proofs.Document.Instance
import LinkedSchema.Proofs.Introspection.Locality

/-!
# Identifiers and annotations

What is registered for a field is its identifier, and its description and unit. The annotations go
into the schemas of a document and the identifiers, with those of the classes, into its context. No
identifier has an influence on a schema or on the data, and no annotation on the context.
-/

namespace LinkedSchema

variable {registry annotated : Registry} {catalog : Catalog} {vocabulary : Vocabulary}
  {root : String} {instance? : Option Json}

namespace Context

variable {tree : SchemaTree}

/-- A frozen registry gives the context that it gave before. -/
theorem build_freeze (hroot : tree.get? tree.root.name = some tree.root) :
    build tree registry.freeze vocabulary = build tree registry vocabulary :=
  build_congr hroot hroot ⟨rfl, fun _ => rfl, rfl, fun _ _ _ => rfl⟩

end Context

/-- The context of a document has no part in its assembly but to stand in the document. -/
theorem SchemaTree.assemble_context (tree : SchemaTree) (context meanings : Scope) (type : String)
    (instance? : Option Json) :
    tree.assemble meanings type instance? =
      (tree.assemble context type instance?).map fun document =>
        { document with context := meanings } := by
  rw [assemble, assemble]
  cases tree.checkAllDefaults (tree.root :: tree.nested.values) with
  | error error => rfl
  | ok _ =>
    cases tree.instanceData instance? with
    | error error => rfl
    | ok data => rfl

/-- A tree depends on the annotations that are registered only. -/
theorem Catalog.introspect_eq_of_annotations
    (h : ∀ type field, registry.SameAnnotations annotated type field) :
    catalog.introspect registry root = catalog.introspect annotated root :=
  introspect_congr (fun _ _ => rfl) fun type _ _ _ field _ => h type field.name

/-- Whether there is a tree does not depend on what is registered. -/
theorem Catalog.introspect_cases (catalog : Catalog) (registry annotated : Registry)
    (root : String) :
    (∃ error, catalog.introspect registry root = .error error ∧
        catalog.introspect annotated root = .error error) ∨
      ∃ tree other, catalog.introspect registry root = .ok tree ∧
        catalog.introspect annotated root = .ok other := by
  rw [introspect, introspect]
  cases catalog.explore root with
  | error interruption => exact .inl ⟨interruption.cause, rfl, rfl⟩
  | ok result => exact .inr ⟨_, _, rfl, rfl⟩

/-- Two contexts of one tree lead to documents that differ in nothing else, or to the same error. -/
theorem compile_of_contexts {tree : SchemaTree} {context meanings : Scope}
    (htree : catalog.introspect registry root = .ok tree)
    (hother : catalog.introspect annotated root = .ok tree)
    (hcontext : Context.build tree registry vocabulary = .ok context)
    (hmeanings : Context.build tree annotated vocabulary = .ok meanings) :
    (∃ document other, compile registry catalog vocabulary root instance? = .ok document ∧
        compile annotated catalog vocabulary root instance? = .ok other ∧
        other = { document with context := meanings }) ∨
      ∃ error, compile registry catalog vocabulary root instance? = .error (.assembly error) ∧
        compile annotated catalog vocabulary root instance? = .error (.assembly error) := by
  have hassemble := tree.assemble_context context meanings root instance?
  cases hresult : tree.assemble context root instance? with
  | ok document =>
    rw [hresult] at hassemble
    exact .inl ⟨_, _, compile_eq_ok_iff.mpr ⟨tree, context, htree, hcontext, hresult⟩,
      compile_eq_ok_iff.mpr ⟨tree, meanings, hother, hmeanings, hassemble⟩, rfl⟩
  | error error =>
    rw [hresult] at hassemble
    refine .inr ⟨error, compile_eq_error_iff.mpr (.inr ⟨tree, htree, .inr ?_⟩),
      compile_eq_error_iff.mpr (.inr ⟨tree, hother, .inr ?_⟩)⟩
    · exact ⟨context, hcontext, error, hresult, rfl⟩
    · exact ⟨meanings, hmeanings, error, hassemble, rfl⟩

/-- The trees of a catalog with two registries have the same context where the identifiers are the
same. -/
theorem Context.build_eq_of_identifiers {tree other : SchemaTree}
    (htree : catalog.introspect registry root = .ok tree)
    (hother : catalog.introspect annotated root = .ok other)
    (hfields : ∀ type field, registry.fieldId? type field = annotated.fieldId? type field)
    (hclasses : ∀ type, registry.classId? type = annotated.classId? type) :
    build tree registry vocabulary = build other annotated vocabulary := by
  have hmirrors := SchemaTree.mirrors_of_introspect htree
  have hmirrored := SchemaTree.mirrors_of_introspect hother
  refine build_congr hmirrors.get?_root hmirrored.get?_root
    (alike_of_mirrors hmirrors hmirrored ?_ ?_)
  · exact fun type _ _ _ field _ => hfields type field.name
  · exact fun type _ => hclasses type

/-- Registered identifiers and registered annotations do not mix. Two registries with the same
annotations give the same tree or the same error, and where both give a context, documents that
differ in nothing else or the same error of assembly. Two registries with the same identifiers give
the same error or a tree each, and for these trees the same context or the same error. -/
theorem channels_apart (registry annotated : Registry) (catalog : Catalog)
    (vocabulary : Vocabulary) (root : String) (instance? : Option Json) :
    ((∀ type field, registry.SameAnnotations annotated type field) →
        catalog.introspect registry root = catalog.introspect annotated root ∧
          ∀ tree context meanings, catalog.introspect registry root = .ok tree →
            Context.build tree registry vocabulary = .ok context →
            Context.build tree annotated vocabulary = .ok meanings →
            (∃ document other,
                (exportDocument registry catalog vocabulary root instance?).2 = .ok document ∧
                  (exportDocument annotated catalog vocabulary root instance?).2 = .ok other ∧
                  other = { document with context := meanings }) ∨
              ∃ error,
                (exportDocument registry catalog vocabulary root instance?).2 =
                    .error (.assembly error) ∧
                  (exportDocument annotated catalog vocabulary root instance?).2 =
                    .error (.assembly error)) ∧
      ((∀ type field, registry.fieldId? type field = annotated.fieldId? type field) →
        (∀ type, registry.classId? type = annotated.classId? type) →
        (∃ error, catalog.introspect registry root = .error error ∧
            catalog.introspect annotated root = .error error) ∨
          ∃ tree other, catalog.introspect registry root = .ok tree ∧
            catalog.introspect annotated root = .ok other ∧
            Context.build tree registry vocabulary = Context.build other annotated vocabulary) := by
  constructor
  · intro h
    have htrees : catalog.introspect registry root = catalog.introspect annotated root :=
      Catalog.introspect_eq_of_annotations h
    refine ⟨htrees, ?_⟩
    intro tree context meanings htree hcontext hmeanings
    have hroot := (SchemaTree.mirrors_of_introspect htree).get?_root
    rw [← Context.build_freeze hroot] at hcontext hmeanings
    have hother := htrees.symm.trans htree
    rw [← Catalog.introspect_freeze] at htree hother
    exact compile_of_contexts htree hother hcontext hmeanings
  · intro hfields hclasses
    refine (catalog.introspect_cases registry annotated root).imp_right ?_
    rintro ⟨tree, other, htree, hother⟩
    exact ⟨tree, other, htree, hother,
      Context.build_eq_of_identifiers htree hother hfields hclasses⟩

/-- Tasks with an effort in hours. -/
def hourlyTasks (id : String) : Registry :=
  Registry.empty.putField "Task" "effort" { id := some id, unit := some "h" }

/-- Tasks with an effort in minutes. -/
def minutelyTasks (id : String) : Registry :=
  Registry.empty.putField "Task" "effort" { id := some id, unit := some "min" }

/-- The effort in hours is annotated in the same way whatever its identifier. -/
theorem sameAnnotations_hourlyTasks (id other type field : String) :
    (hourlyTasks id).SameAnnotations (hourlyTasks other) type field := by
  simp only [Registry.SameAnnotations, hourlyTasks, Registry.field?_putField]
  split
  · exact ⟨rfl, rfl⟩
  · exact ⟨rfl, rfl⟩

/-- The effort has the same identifier whatever its unit. -/
theorem fieldId?_minutelyTasks (id type field : String) :
    (hourlyTasks id).fieldId? type field = (minutelyTasks id).fieldId? type field := by
  simp only [Registry.fieldId?, hourlyTasks, minutelyTasks, Registry.field?_putField]
  split
  · rfl
  · rfl

/-- Another identifier for the effort changes the context alone, and another unit leaves the context
as it is. -/
theorem channels_apart_hourlyTasks :
    (∃ document other meanings,
        (exportDocument (hourlyTasks "cw:effort") SchemaTree.plannedTasks {} "Task" none).2 =
          .ok document ∧
        (exportDocument (hourlyTasks "cw:work") SchemaTree.plannedTasks {} "Task" none).2 =
          .ok other ∧ other = { document with context := meanings }) ∧
      ∃ tree other, SchemaTree.plannedTasks.introspect (hourlyTasks "cw:effort") "Task" = .ok tree ∧
        SchemaTree.plannedTasks.introspect (minutelyTasks "cw:effort") "Task" = .ok other ∧
        Context.build tree (hourlyTasks "cw:effort") {} =
          Context.build other (minutelyTasks "cw:effort") {} := by
  have hok : ∃ tree context meanings document,
      SchemaTree.plannedTasks.introspect (hourlyTasks "cw:effort") "Task" = .ok tree ∧
        Context.build tree (hourlyTasks "cw:effort") {} = .ok context ∧
        Context.build tree (hourlyTasks "cw:work") {} = .ok meanings ∧
        (exportDocument (hourlyTasks "cw:effort") SchemaTree.plannedTasks {} "Task" none).2 =
          .ok document :=
    ⟨_, _, _, _, by cbv, by cbv, by cbv, by cbv⟩
  obtain ⟨tree, context, meanings, document, htree, hcontext, hmeanings, hdocument⟩ := hok
  constructor
  · obtain ⟨hannotations, -⟩ := channels_apart (hourlyTasks "cw:effort") (hourlyTasks "cw:work")
      SchemaTree.plannedTasks {} "Task" none
    obtain ⟨-, hcontexts⟩ := hannotations (sameAnnotations_hourlyTasks "cw:effort" "cw:work")
    rcases hcontexts tree context meanings htree hcontext hmeanings with
      ⟨found, other, hfound, hother, heq⟩ | ⟨error, herror, -⟩
    · exact ⟨found, other, meanings, hfound, hother, heq⟩
    · cases hdocument.symm.trans herror
  · obtain ⟨-, hidentifiers⟩ := channels_apart (hourlyTasks "cw:effort")
      (minutelyTasks "cw:effort") SchemaTree.plannedTasks {} "Task" none
    rcases hidentifiers (fieldId?_minutelyTasks "cw:effort") (fun _ => rfl) with
      ⟨error, herror, -⟩ | hfound
    · cases htree.symm.trans herror
    · exact hfound

end LinkedSchema
