import LinkedSchema.Json.Pointer
import LinkedSchema.Proofs.Conformity.Agreement
import LinkedSchema.Proofs.Introspection.Refusal

/-!
# Members of a document

The root of a document has no field with the name of a structural member, so no member of a
document comes twice: the document as a value is the document as it is written, and every structural
member is found under its key.
-/

namespace LinkedSchema

variable {tree : SchemaTree} {document : Document}

/-- The data of a type have the names of its fields as keys. -/
theorem SchemaTree.keys_of_checkObject {definition : TypeDefinition} {value : Json}
    {data : Table Json} (hdistinct : definition.HasDistinctFields)
    (h : tree.checkObject definition value = .ok data) :
    Table.keys data = definition.fields.map (·.name) := by
  obtain ⟨members, entries, -, -, hentries, rfl⟩ := checkObject_eq_ok_iff.mp h
  have hkeys := keys_of_filled hentries
  rw [Table.ofList_of_nodup (hkeys ▸ hdistinct), hkeys]

/-- No field of the root has a reserved name. -/
theorem SchemaTree.not_isReserved_of_introspect {catalog : Catalog} {registry : Registry}
    {root : String} (h : catalog.introspect registry root = .ok tree) :
    ∀ field ∈ tree.root.fields, ¬ StructuralKey.isReserved field.name = true := by
  obtain ⟨model, hmodel, hnames⟩ := Catalog.canBeRoot_of_introspect h
  obtain ⟨found, hfound, hroot⟩ := (mirrors_of_introspect h).root_eq
  obtain rfl : model = found := Option.some.inj (hmodel.symm.trans hfound)
  rw [hroot]
  exact List.forall_mem_map.mpr hnames

/-- The members of a document have the structural keys and then those of the data. -/
theorem Document.keys_members (document : Document) :
    Table.keys document.members = StructuralKey.all.map (·.name) ++ Table.keys document.data := by
  simp [Table.keys, members, Function.comp_def]

/-- No member of an assembled document comes twice. -/
theorem SchemaTree.nodup_keys_of_assemble {catalog : Catalog} {registry : Registry} {root : String}
    (h : catalog.introspect registry root = .ok tree) {context : Scope} {type : String}
    {instance? : Option Json} (hdocument : tree.assemble context type instance? = .ok document) :
    (Table.keys document.members).Nodup := by
  have hdistinct := (mirrors_of_introspect h).isClosed.distinct tree.root (.inl rfl)
  obtain ⟨-, data, hdata, rfl⟩ := assemble_eq_ok_iff.mp hdocument
  have hkeys : (Table.keys data).Nodup ∧
      ∀ key ∈ Table.keys data, ∃ field ∈ tree.root.fields, field.name = key := by
    cases instance? with
    | none =>
      obtain rfl : [] = data := Except.ok.inj hdata
      simp [Table.keys]
    | some value =>
      have hnames := keys_of_checkObject hdistinct (Outcome.mapError_eq_ok_iff.mp hdata)
      rw [hnames]
      exact ⟨hdistinct, fun key => List.mem_map.mp⟩
  rw [Document.keys_members, List.nodup_append]
  refine ⟨by decide, hkeys.1, ?_⟩
  rintro _ hstructural key hkey rfl
  obtain ⟨field, hfield, hname⟩ := hkeys.2 _ hkey
  apply not_isReserved_of_introspect h field hfield
  rw [hname, StructuralKey.isReserved, List.any_eq_true]
  obtain ⟨structural, hmem, rfl⟩ := List.mem_map.mp hstructural
  exact ⟨structural, hmem, decide_eq_true rfl⟩

namespace Document

/-- As a value a document is what is written, where no member comes twice. -/
theorem toJson_eq_written (h : (Table.keys document.members).Nodup) :
    document.toJson = document.written := by
  rw [toJson, Table.ofList_of_nodup h, written]

/-- A structural member is found under its key. -/
theorem step?_structural (h : (Table.keys document.members).Nodup) (key : StructuralKey) :
    document.toJson.step? key.name = some (document.structural key) := by
  rw [toJson_eq_written h]
  refine Table.get?_of_mem h (List.mem_append_left _ (List.mem_map.mpr ⟨key, ?_, rfl⟩))
  cases key <;> decide

end Document

end LinkedSchema
