import LinkedSchema.Proofs.Document.Everywhere
import LinkedSchema.Proofs.Json.Reading

/-!
# The text of a document

A document is written member by member. Where no object in a model or in the instance has two
members of one key, no object in the document has: the text says one thing of each key, and whoever
reads it gets the value that the document is, with its keys in order, as far as numbers are read
back as what they were. Values that were read themselves have no such object.
-/

namespace LinkedSchema

variable {registry : Registry} {catalog : Catalog} {vocabulary : Vocabulary} {root : String}
  {instance? : Option Json} {document : Document}

/-- A document has the structural keys and then, if there is an instance, the names of the fields of
the root in the order of declaration. -/
theorem keys_of_compile
    (h : compile registry catalog vocabulary root instance? = .ok document) :
    ∃ model, catalog.get? root = some model ∧
      Table.keys document.members = StructuralKey.all.map (·.name) ++
        if instance?.isSome then model.fields.map (·.name) else [] := by
  obtain ⟨tree, context, htree, -, hassemble⟩ := compile_eq_ok_iff.mp h
  have hmirrors := SchemaTree.mirrors_of_introspect htree
  have hdistinct := hmirrors.isClosed.distinct tree.root (.inl rfl)
  obtain ⟨model, hmodel, hroot⟩ := hmirrors.root_eq
  obtain ⟨-, data, hdata, rfl⟩ := SchemaTree.assemble_eq_ok_iff.mp hassemble
  refine ⟨model, hmodel, ?_⟩
  rw [Document.keys_members]
  congr 1
  cases instance? with
  | none =>
    obtain rfl : [] = data := Except.ok.inj hdata
    rfl
  | some value =>
    rw [SchemaTree.keys_of_checkObject hdistinct (Outcome.mapError_eq_ok_iff.mp hdata), hroot]
    simp [TypeDefinition.ofModel, Property.ofDecl, Function.comp_def]

/-- An exported document has the structural keys and then, if there is an instance, the names of the
fields of the root, each once. No object in it has two members of one key. So it is read back from
its text, indented or compact, where its nesting is allowed for, provided that the numbers in the
models and in the instance are read back from theirs. -/
theorem exportDocument_readBack (hcatalog : catalog.Everywhere Json.HasDistinctKeys)
    (hinstance : ∀ value, instance? = some value → value.Everywhere Json.HasDistinctKeys)
    (h : (exportDocument registry catalog vocabulary root instance?).2 = .ok document) :
    (∃ model, catalog.get? root = some model ∧
        Table.keys document.members =
          ["@context", "$defs", "properties", "required", "title", "type", "@type"] ++
            if instance?.isSome then model.fields.map (·.name) else []) ∧
      (Table.keys document.members).Nodup ∧
      document.written.Everywhere Json.HasDistinctKeys ∧
      (catalog.Everywhere Json.Survives →
        (∀ value, instance? = some value → value.Everywhere Json.Survives) →
        ∀ limit, document.written.nesting ≤ limit →
          readWithin limit Draft.toJson document.written.pretty = .ok document.toJson ∧
            readWithin limit Draft.toJson document.written.compact = .ok document.toJson) := by
  have hkeys := everywhere_written_of_compile Json.isStructural_hasDistinctKeys hcatalog hinstance h
  have hnodup : (Table.keys document.members).Nodup := (Json.everywhere_obj_iff.mp hkeys).1
  refine ⟨keys_of_compile h, hnodup, hkeys, ?_⟩
  intro hcatalog hinstance limit hlimit
  have hnumbers := everywhere_written_of_compile Json.isStructural_survives hcatalog hinstance h
  rw [Document.toJson_eq_written hnodup]
  exact ⟨Json.readWithin_pretty hkeys hnumbers hlimit,
    Json.readWithin_compact hkeys hnumbers hlimit⟩

/-- The planned task and its models have distinct keys and whole numbers. -/
theorem everywhere_plannedTasks :
    (SchemaTree.plannedTasks.Everywhere Json.HasDistinctKeys ∧
        plannedTask.Everywhere Json.HasDistinctKeys) ∧
      SchemaTree.plannedTasks.Everywhere Json.Survives ∧ plannedTask.Everywhere Json.Survives := by
  decide +kernel

/-- The document of a task with a part is read back from both of its texts. -/
theorem exportDocument_readBack_plannedTask :
    ∃ document, (exportDocument ∅ SchemaTree.plannedTasks {} "Task" (some plannedTask)).2 =
        .ok document ∧
      (Table.keys document.members).Nodup ∧ document.written.Everywhere Json.HasDistinctKeys ∧
      readWithin 127 Draft.toJson document.written.pretty = .ok document.toJson ∧
      readWithin 127 Draft.toJson document.written.compact = .ok document.toJson := by
  have hok : ∃ document, (exportDocument ∅ SchemaTree.plannedTasks {} "Task"
      (some plannedTask)).2 = .ok document ∧ document.written.nesting ≤ 127 :=
    ⟨_, by cbv, by cbv⟩
  obtain ⟨document, h, hnesting⟩ := hok
  obtain ⟨⟨hkeys, hgiven⟩, hnumbers, hamounts⟩ := everywhere_plannedTasks
  obtain ⟨-, hnodup, hdistinct, hread⟩ := exportDocument_readBack hkeys (by simpa using hgiven) h
  exact ⟨document, h, hnodup, hdistinct, hread hnumbers (by simpa using hamounts) 127 hnesting⟩

end LinkedSchema
