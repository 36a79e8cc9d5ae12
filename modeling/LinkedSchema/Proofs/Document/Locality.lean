import LinkedSchema.Proofs.Context.Locality
import LinkedSchema.Proofs.Document.Instance
import LinkedSchema.Proofs.Introspection.Locality
import LinkedSchema.Proofs.Registry.Registration

/-!
# What a document depends on

A document depends on the types to which references lead from its root: on their models, on what is
registered for the fields of these models, and on their class identifiers. Whatever else a catalog
and a registry hold changes neither a document nor an error.
-/

namespace LinkedSchema

/-- Two pairs of a catalog and a registry agree on a type: on its model, on what is registered for
the fields of the model, and on its class identifier. -/
structure Catalog.AgreesOn (catalog other : Catalog) (registry annotated : Registry)
    (type : String) : Prop where
  model : catalog.get? type = other.get? type
  fields : ∀ model, catalog.get? type = some model → ∀ field ∈ model.fields,
    registry.field? type field.name = annotated.field? type field.name
  classId : registry.classId? type = annotated.classId? type

/-- The type that a subject is about. -/
def Subject.owner : Subject → String
  | .type name => name
  | .field owner _ => owner

/-- A registration changes nothing for other types. -/
theorem Registry.eq_of_enter {registry grown : Registry} {registration : Registration}
    (h : registry.enter registration = .ok grown) {type : String}
    (hother : registration.subject.owner ≠ type) :
    (∀ field, registry.field? type field = grown.field? type field) ∧
      registry.classId? type = grown.classId? type := by
  have hanswers := registry.answers_enter registration
  rw [h] at hanswers
  cases hanswers with
  | repeated => exact ⟨fun _ => rfl, rfl⟩
  | new =>
    cases registration with
    | field owner name metadata =>
      refine ⟨fun field => ?_, (classId?_putField ..).symm⟩
      rw [put, field?_putField, if_neg fun heq => hother heq.1]
    | type name id =>
      have hname : name ≠ type := hother
      refine ⟨fun field => (field?_putClass ..).symm, ?_⟩
      rw [put, classId?_putClass, if_neg hname]

section Compile

variable {registry annotated : Registry} {catalog other : Catalog} {vocabulary : Vocabulary}
  {root : String} {instance? : Option Json}

/-- Where two pairs agree on all types that are reachable from a root, they compile the same
document. -/
theorem compile_congr
    (h : ∀ type, catalog.Reaches root type → catalog.AgreesOn other registry annotated type) :
    compile registry catalog vocabulary root instance? =
      compile annotated other vocabulary root instance? := by
  have hfields : ∀ type model, catalog.Reaches root type → catalog.get? type = some model →
      ∀ field ∈ model.fields, registry.field? type field.name = annotated.field? type field.name :=
    fun type model hreach hmodel => (h type hreach).fields model hmodel
  have htrees : catalog.introspect registry root = other.introspect annotated root := by
    refine Catalog.introspect_congr (fun type hreach => (h type hreach).model) ?_
    intro type model hreach hmodel field hfield
    rw [Registry.SameAnnotations, hfields type model hreach hmodel field hfield]
    exact ⟨rfl, rfl⟩
  rw [compile, compile, ← htrees]
  cases hrun : catalog.introspect registry root with
  | error error => rfl
  | ok tree =>
    have hmirrors := SchemaTree.mirrors_of_introspect hrun
    have halike : Context.Alike tree tree registry annotated := by
      refine Context.alike_of_mirrors hmirrors hmirrors ?_
        fun type hreach => (h type hreach).classId
      intro type model hreach hmodel field hfield
      rw [Registry.fieldId?, Registry.fieldId?, hfields type model hreach hmodel field hfield]
    have hbuild :
        Context.build tree registry vocabulary = Context.build tree annotated vocabulary :=
      Context.build_congr hmirrors.get?_root hmirrors.get?_root halike
    simp only [bind, Except.bind, Except.mapError, hbuild]

end Compile

/-- An export depends on what is reachable from its root only: on the models of the reachable types,
on what is registered for their fields, and on their class identifiers. So defining, redefining or
annotating a type that is not reachable changes nothing. -/
theorem exportDocument_local (registry : Registry) (catalog : Catalog) (vocabulary : Vocabulary)
    (root : String) (instance? : Option Json) :
    (∀ annotated other,
        (∀ type, catalog.Reaches root type → catalog.AgreesOn other registry annotated type) →
        (exportDocument annotated other vocabulary root instance?).2 =
          (exportDocument registry catalog vocabulary root instance?).2) ∧
      (∀ model : Model, ¬ catalog.Reaches root model.name →
        (exportDocument registry (catalog.define model) vocabulary root instance?).2 =
          (exportDocument registry catalog vocabulary root instance?).2) ∧
      ∀ registration grown, registry.enter registration = .ok grown →
        ¬ catalog.Reaches root registration.subject.owner →
        (exportDocument grown catalog vocabulary root instance?).2 =
          (exportDocument registry catalog vocabulary root instance?).2 := by
  have hlocal : ∀ annotated other,
      (∀ type, catalog.Reaches root type → catalog.AgreesOn other registry annotated type) →
      (exportDocument annotated other vocabulary root instance?).2 =
        (exportDocument registry catalog vocabulary root instance?).2 := by
    intro annotated other h
    refine (compile_congr fun type hreach => ?_).symm
    obtain ⟨hmodel, hfields, hclass⟩ := h type hreach
    exact ⟨hmodel, hfields, hclass⟩
  refine ⟨hlocal, ?_, ?_⟩
  · intro model hunreachable
    refine hlocal registry (catalog.define model) fun type hreach => ⟨?_, fun _ _ _ _ => rfl, rfl⟩
    have hne : model.name ≠ type := fun heq => hunreachable (heq ▸ hreach)
    rw [Catalog.get?_define, if_neg hne]
  · intro registration grown hgrown hunreachable
    refine hlocal grown catalog fun type hreach => ?_
    have hne : registration.subject.owner ≠ type := fun heq => hunreachable (heq ▸ hreach)
    obtain ⟨hfields, hclass⟩ := Registry.eq_of_enter hgrown hne
    exact ⟨rfl, fun model _ field _ => hfields field.name, hclass⟩

/-- From a task references lead to tasks only. -/
theorem reaches_plannedTasks {type : String} (h : SchemaTree.plannedTasks.Reaches "Task" type) :
    type = "Task" := by
  have hmem : type ∈ ["Task"] := Catalog.mem_of_reaches (by decide) (by decide +kernel) h
  exact List.mem_singleton.mp hmem

/-- A plan of tasks is not in reach of a task, so neither its model nor its unit changes the
document of one. -/
theorem exportDocument_local_plannedTask :
    (exportDocument (Registry.empty.putField "Plan" "tasks" { unit := some "1" })
        (SchemaTree.plannedTasks.define
          { name := "Plan", fields := [{ name := "tasks", kind := .reference "Task" }] })
        {} "Task" (some plannedTask)).2 =
      (exportDocument ∅ SchemaTree.plannedTasks {} "Task" (some plannedTask)).2 := by
  obtain ⟨hlocal, -, -⟩ :=
    exportDocument_local ∅ SchemaTree.plannedTasks {} "Task" (some plannedTask)
  refine hlocal _ _ fun type hreach => ?_
  obtain rfl := reaches_plannedTasks hreach
  refine ⟨?_, fun model _ field _ => ?_, rfl⟩
  · rw [Catalog.get?_define, if_neg (by decide)]
  · rw [Registry.field?_putField, if_neg (by simp)]
    rfl

end LinkedSchema
