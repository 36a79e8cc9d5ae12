import LinkedSchema.Proofs.Conformity.Refusal
import LinkedSchema.Proofs.Document.Reordering

/-!
# What an instance decides

An instance comes in last, when the tree and the context of a document are there and all defaults
have passed. It decides on the data and on nothing else, and an export that would succeed without it
is refused only for what is wrong with it.
-/

namespace LinkedSchema

/-- An assembly is refused for a default or for what is wrong with the instance. -/
theorem SchemaTree.assemble_eq_error_iff {tree : SchemaTree} {context : Scope} {type : String}
    {instance? : Option Json} {error : AssemblyError} :
    tree.assemble context type instance? = .error error ↔
      tree.checkAllDefaults (tree.root :: tree.nested.values) = .error error ∨
        tree.checkAllDefaults (tree.root :: tree.nested.values) = .ok () ∧
          ∃ value misfit, instance? = some value ∧
            tree.checkObject tree.root value = .error misfit ∧ .misfit misfit = error := by
  have hdata : tree.instanceData instance? = .error error ↔
      ∃ value misfit, instance? = some value ∧
        tree.checkObject tree.root value = .error misfit ∧ .misfit misfit = error := by
    cases instance? with
    | none => simp [instanceData]
    | some value => simp [instanceData, Outcome.mapError_eq_error_iff]
  rw [assemble, Outcome.bind_eq_error_iff]
  refine or_congr_right ?_
  constructor
  · rintro ⟨⟨⟩, hdefaults, h⟩
    rcases Outcome.bind_eq_error_iff.mp h with h | ⟨data, -, h⟩
    · exact ⟨hdefaults, hdata.mp h⟩
    · cases h
  · rintro ⟨hdefaults, h⟩
    exact ⟨(), hdefaults, Outcome.bind_eq_error_iff.mpr (.inl (hdata.mpr h))⟩

section Compile

variable {registry : Registry} {catalog : Catalog} {vocabulary : Vocabulary} {root : String}
  {instance? : Option Json}

/-- A document is refused by the first of the three parts that fails. -/
theorem compile_eq_error_iff {error : ExportError} :
    compile registry catalog vocabulary root instance? = .error error ↔
      (∃ inner, catalog.introspect registry root = .error inner ∧ .introspection inner = error) ∨
        ∃ tree, catalog.introspect registry root = .ok tree ∧
          ((∃ inner, Context.build tree registry vocabulary = .error inner ∧
              .context inner = error) ∨
            ∃ context, Context.build tree registry vocabulary = .ok context ∧
              ∃ inner, tree.assemble context root instance? = .error inner ∧
                .assembly inner = error) := by
  simp only [compile, Outcome.bind_eq_error_iff, Outcome.mapError_eq_error_iff,
    Outcome.mapError_eq_ok_iff]

/-- What refuses an export without an instance refuses it with any instance. -/
theorem compile_error_of_none {error : ExportError}
    (h : compile registry catalog vocabulary root none = .error error) :
    compile registry catalog vocabulary root instance? = .error error := by
  rw [compile_eq_error_iff] at h ⊢
  refine h.imp_right ?_
  rintro ⟨tree, htree, h⟩
  refine ⟨tree, htree, h.imp_right ?_⟩
  rintro ⟨context, hcontext, inner, hassemble, heq⟩
  refine ⟨context, hcontext, inner, ?_, heq⟩
  rcases SchemaTree.assemble_eq_error_iff.mp hassemble with hdefaults | ⟨-, value, -, hnone, -⟩
  · exact SchemaTree.assemble_eq_error_iff.mpr (.inl hdefaults)
  · cases hnone

/-- Where a document without data can be compiled, an instance is refused only for what is wrong
with it. -/
theorem pointsAt_of_compile {document : Document} {value : Json} {error : ExportError}
    (hdocument : compile registry catalog vocabulary root none = .ok document)
    (h : compile registry catalog vocabulary root (some value) = .error error) :
    ∃ misfit, error = .assembly (.misfit misfit) ∧
      (∀ name, misfit.cause ≠ .missingDefinition name) ∧
      ∃ tree, catalog.introspect registry root = .ok tree ∧
        tree.PointsAt (.object tree.root) value misfit := by
  obtain ⟨tree, context, htree, hcontext, hassemble⟩ := compile_eq_ok_iff.mp hdocument
  obtain ⟨hdefaults, -⟩ := SchemaTree.assemble_eq_ok_iff.mp hassemble
  rcases compile_eq_error_iff.mp h with ⟨_, hrefused, -⟩ | ⟨found, hfound, h⟩
  · cases htree.symm.trans hrefused
  obtain rfl : tree = found := Except.ok.inj (htree.symm.trans hfound)
  rcases h with ⟨_, hrefused, -⟩ | ⟨_, -, inner, hrefused, rfl⟩
  · cases hcontext.symm.trans hrefused
  rcases SchemaTree.assemble_eq_error_iff.mp hrefused with
    hrefused | ⟨-, given, misfit, heq, hmisfit, rfl⟩
  · cases hdefaults.symm.trans hrefused
  cases heq
  have hclosed := (SchemaTree.mirrors_of_introspect htree).isClosed
  have hpoints := SchemaTree.pointsAt_of_checkObject hmisfit
  exact ⟨misfit, rfl, hclosed.ne_missingDefinition hpoints (.inl rfl), tree, htree, hpoints⟩

/-- Two documents of one root differ in their data only. -/
theorem eq_of_compile {other? : Option Json} {document other : Document}
    (h : compile registry catalog vocabulary root instance? = .ok document)
    (hother : compile registry catalog vocabulary root other? = .ok other) :
    other = { document with data := other.data } := by
  obtain ⟨tree, context, htree, hcontext, hassemble⟩ := compile_eq_ok_iff.mp h
  obtain ⟨found, meanings, hfound, hmeanings, hassembled⟩ := compile_eq_ok_iff.mp hother
  obtain rfl : tree = found := Except.ok.inj (htree.symm.trans hfound)
  obtain rfl : context = meanings := Except.ok.inj (hcontext.symm.trans hmeanings)
  obtain ⟨-, data, -, rfl⟩ := SchemaTree.assemble_eq_ok_iff.mp hassemble
  obtain ⟨-, filled, -, rfl⟩ := SchemaTree.assemble_eq_ok_iff.mp hassembled
  rfl

end Compile

/-- A frozen registry describes a tree as before. -/
theorem Catalog.introspect_freeze (catalog : Catalog) (registry : Registry) (root : String) :
    catalog.introspect registry.freeze root = catalog.introspect registry root :=
  rfl

/-- The instance of an export decides on the data of the document only. What refuses the export
without an instance refuses it with any. And where a document without data is exported, an instance
is refused only for a part of it to which the misfit points: the part is no object, has an unknown
field, lacks a required field, or does not fit the kind that is declared for it. -/
theorem exportDocument_instance (registry : Registry) (catalog : Catalog) (vocabulary : Vocabulary)
    (root : String) :
    (∀ instance? other? document other,
        (exportDocument registry catalog vocabulary root instance?).2 = .ok document →
        (exportDocument registry catalog vocabulary root other?).2 = .ok other →
        other = { document with data := other.data }) ∧
      (∀ error, (exportDocument registry catalog vocabulary root none).2 = .error error →
        ∀ value, (exportDocument registry catalog vocabulary root (some value)).2 = .error error) ∧
      ∀ document, (exportDocument registry catalog vocabulary root none).2 = .ok document →
        ∀ value error,
          (exportDocument registry catalog vocabulary root (some value)).2 = .error error →
          ∃ misfit, error = .assembly (.misfit misfit) ∧
            (∀ name, misfit.cause ≠ .missingDefinition name) ∧
            ∃ tree, catalog.introspect registry root = .ok tree ∧
              tree.PointsAt (.object tree.root) value misfit := by
  refine ⟨?_, ?_, ?_⟩
  · intro instance? other? document other h hother
    exact eq_of_compile h hother
  · intro error h value
    exact compile_error_of_none h
  · intro document hdocument value error h
    have hpoints := pointsAt_of_compile hdocument h
    simpa only [Catalog.introspect_freeze] using hpoints

/-- A task of which a part has no name. -/
def unnamedPart : Json :=
  .obj [("name", .str "report"), ("parts", .arr [.obj []])]

/-- The part is to blame. -/
example : (exportDocument ∅ SchemaTree.plannedTasks {} "Task" (some unnamedPart)).2 =
    .error (.assembly (.misfit
      { path := [.field "parts", .index 0], cause := .missingField "name" })) := by
  cbv

/-- A task changes the data alone, an unknown root refuses every instance, and the task of which a
part has no name is refused for this part. -/
theorem exportDocument_instance_unnamedPart :
    (∃ document other, (exportDocument ∅ SchemaTree.plannedTasks {} "Task" none).2 = .ok document ∧
        (exportDocument ∅ SchemaTree.plannedTasks {} "Task" (some plannedTask)).2 = .ok other ∧
        other = { document with data := other.data }) ∧
      (∀ value, (exportDocument ∅ SchemaTree.plannedTasks {} "Plan" (some value)).2 =
        .error (.introspection (.unknownRoot "Plan"))) ∧
      ∃ error misfit,
        (exportDocument ∅ SchemaTree.plannedTasks {} "Task" (some unnamedPart)).2 = .error error ∧
          error = .assembly (.misfit misfit) ∧
          ∃ tree, SchemaTree.plannedTasks.introspect ∅ "Task" = .ok tree ∧
            tree.PointsAt (.object tree.root) unnamedPart misfit := by
  have hok : ∃ document other,
      (exportDocument ∅ SchemaTree.plannedTasks {} "Task" none).2 = .ok document ∧
        (exportDocument ∅ SchemaTree.plannedTasks {} "Task" (some plannedTask)).2 = .ok other :=
    ⟨_, _, by cbv, by cbv⟩
  have hrefused : ∃ error,
      (exportDocument ∅ SchemaTree.plannedTasks {} "Task" (some unnamedPart)).2 = .error error :=
    ⟨_, by cbv⟩
  obtain ⟨document, other, hdocument, hother⟩ := hok
  obtain ⟨error, herror⟩ := hrefused
  obtain ⟨hsame, -, hpoints⟩ := exportDocument_instance ∅ SchemaTree.plannedTasks {} "Task"
  obtain ⟨-, hrefuses, -⟩ := exportDocument_instance ∅ SchemaTree.plannedTasks {} "Plan"
  obtain ⟨misfit, hmisfit, -, htree⟩ := hpoints document hdocument unnamedPart error herror
  exact ⟨⟨document, other, hdocument, hother, hsame _ _ document other hdocument hother⟩,
    hrefuses _ (by cbv), error, misfit, herror, hmisfit, htree⟩

end LinkedSchema
