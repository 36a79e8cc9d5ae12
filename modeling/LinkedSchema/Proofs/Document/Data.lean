import LinkedSchema.Export
import LinkedSchema.Proofs.Conformity.Agreement

/-!
# The data of a document

The data of a document are not the given instance but what the check makes of it, with defaults
filled in at every depth. They are valid against the schema of the document nevertheless: the
defaults are copied as they stand, and no document is assembled unless every default of the tree
passes the check for its kind.
-/

namespace LinkedSchema

namespace SchemaTree

variable {tree : SchemaTree} {definition : TypeDefinition} {value checked : Json}

/-- Every default of a tree is valid against the schema of its kind. -/
def HasValidDefaults (tree : SchemaTree) : Prop :=
  ∀ definition, tree.Holds definition → ∀ field ∈ definition.fields,
    ∀ default, field.default = some default → Valid tree.definitions field.kind.schema default

/-- The defaults of a type pass if each passes for the kind of its field. -/
theorem checkDefaults_eq_ok_iff {type : String} {fields : List Property} :
    tree.checkDefaults type fields = .ok () ↔ ∀ field ∈ fields,
      ∀ default, field.default = some default →
        ∃ checked, tree.check field.kind default = .ok checked := by
  induction fields with
  | nil => simp [checkDefaults]
  | cons field fields ih =>
    rw [checkDefaults, List.forall_mem_cons]
    cases hdefault : field.default with
    | none => simp [ih]
    | some default =>
      cases hcheck : tree.check field.kind default with
      | error misfit => simp [hcheck]
      | ok checked => simp [hcheck, ih]

/-- All defaults pass exactly if those of each definition do. -/
theorem checkAllDefaults_eq_ok_iff {definitions : List TypeDefinition} :
    tree.checkAllDefaults definitions = .ok () ↔ ∀ definition ∈ definitions,
      tree.checkDefaults definition.name definition.fields = .ok () := by
  induction definitions with
  | nil => simp [checkAllDefaults]
  | cons definition definitions ih =>
    rw [checkAllDefaults, List.forall_mem_cons, ← ih, Outcome.bind_eq_ok_iff]
    constructor
    · rintro ⟨⟨⟩, hfirst, hrest⟩
      exact ⟨hfirst, hrest⟩
    · rintro ⟨hfirst, hrest⟩
      exact ⟨(), hfirst, hrest⟩

/-- A definition stands in a tree exactly if it is the root or one of the nested types. -/
theorem holds_iff_mem : tree.Holds definition ↔ definition ∈ tree.root :: tree.nested.values := by
  rw [List.mem_cons, Holds]
  refine or_congr_right ?_
  constructor
  · rintro ⟨name, hnested⟩
    exact List.mem_map_of_mem (Directory.mem_entries_iff.mpr hnested)
  · intro hmem
    obtain ⟨⟨name, _⟩, hentry, rfl⟩ := List.mem_map.mp hmem
    exact ⟨name, Directory.mem_entries_iff.mp hentry⟩

/-- The defaults of a tree pass exactly if each of them passes the check for the kind of its
field. -/
theorem defaults_pass_iff : tree.checkAllDefaults (tree.root :: tree.nested.values) = .ok () ↔
    ∀ definition, tree.Holds definition → ∀ field ∈ definition.fields,
      ∀ default, field.default = some default →
        ∃ checked, tree.check field.kind default = .ok checked := by
  simp only [checkAllDefaults_eq_ok_iff, checkDefaults_eq_ok_iff, holds_iff_mem]

/-- Where the defaults of a closed tree pass the check, they are valid. -/
theorem IsClosed.hasValidDefaults (h : tree.IsClosed)
    (hdefaults : tree.checkAllDefaults (tree.root :: tree.nested.values) = .ok ()) :
    tree.HasValidDefaults := by
  intro definition hdefinition field hfield default hdefault
  have hpasses := defaults_pass_iff.mp hdefaults definition hdefinition field hfield default hdefault
  have hdefines : tree.Defines field.kind := h.defined definition hdefinition field hfield
  exact (h.agrees hdefines default).mp hpasses

/-- Where the check gives valid values for all smaller ones, it gives valid objects of a type. -/
theorem IsClosed.valid_of_checkObject (h : tree.IsClosed) (hdefaults : tree.HasValidDefaults)
    (hdefinition : tree.Holds definition)
    (hsmaller : ∀ inner : Json, inner.size < value.size → ∀ kind, tree.Defines kind →
      ∀ checked, tree.check kind inner = .ok checked → Valid tree.definitions kind.schema checked)
    {data : Table Json} (hdata : tree.checkObject definition value = .ok data) :
    Valid tree.definitions definition.schema (.obj data) := by
  obtain ⟨members, entries, rfl, -, hentries, rfl⟩ := checkObject_eq_ok_iff.mp hdata
  have hkeys := keys_of_filled hentries
  have hdistinct := h.distinct definition hdefinition
  have hnodup : (Table.keys entries).Nodup := hkeys ▸ hdistinct
  rw [Table.ofList_of_nodup hnodup]
  refine (TypeDefinition.valid_iff hdistinct).mpr ⟨entries, rfl, ?_, ?_⟩
  · intro key inner hinner
    have hentry := Table.mem_of_get? hinner
    obtain ⟨field, hfield, hname, hfills⟩ := exists_mem_of_forall₂ hentries hentry
    refine ⟨field, hfield, hname, ?_⟩
    unfold Fills at hfills
    split at hfills
    · next given hgiven =>
      have hdefines : tree.Defines field.kind := h.defined definition hdefinition field hfield
      exact hsmaller given (size_lt_of_get? hgiven) field.kind hdefines inner hfills
    · exact hdefaults definition hdefinition field hfield inner hfills
  · intro field hfield _
    rw [hkeys]
    exact List.mem_map_of_mem hfield

/-- On a closed tree with valid defaults the check of a defined kind gives valid values. -/
theorem IsClosed.valid_of_check (h : tree.IsClosed) (hdefaults : tree.HasValidDefaults)
    {kind : Kind} (hkind : tree.Defines kind) (hchecked : tree.check kind value = .ok checked) :
    Valid tree.definitions kind.schema checked := by
  induction hsize : value.size using Nat.strongRecOn generalizing kind value checked with
  | ind size ihvalue =>
    subst hsize
    induction kind using Kind.induction with
    | scalar type =>
      obtain ⟨haccepts, rfl⟩ := check_scalar_iff.mp hchecked
      exact Kind.valid_scalar_iff.mpr haccepts
    | enumeration literals =>
      obtain ⟨hany, rfl⟩ := check_enumeration_iff.mp hchecked
      exact Kind.valid_enumeration_iff.mpr hany
    | reference name =>
      obtain ⟨nested, hnested⟩ := hkind name .reference
      have hget : tree.get? name = some nested := by rw [SchemaTree.get?, hnested]
      obtain ⟨data, hdata, rfl⟩ := (check_reference_iff hget).mp hchecked
      refine Kind.valid_reference_iff.mpr ⟨nested.schema, ?_, ?_⟩
      · rw [get?_definitions, hnested, Option.map_some]
      · refine h.valid_of_checkObject hdefaults (.inr ⟨name, hnested⟩) ?_ hdata
        intro inner hsmaller kind hdefines checked hinner
        exact ihvalue inner.size hsmaller hdefines hinner rfl
    | collection item ih =>
      have hitem := hkind.of_mentions fun target htarget => .collection htarget
      obtain ⟨items, results, rfl, hresults, rfl⟩ := check_collection_iff.mp hchecked
      refine Kind.valid_collection_iff.mpr ⟨results, rfl, ?_⟩
      intro result hresult
      obtain ⟨inner, hinner, hfits⟩ := exists_mem_of_forall₂ hresults hresult
      have hsmaller := Json.size_le_of_mem hinner
      exact ihvalue inner.size (by simp only [Json.size]; omega) hitem hfits rfl
    | union members ih =>
      obtain ⟨kind, hmem, hfits⟩ := check_of_firstFit (check_union_iff.mp hchecked)
      have hdefines := hkind.of_mentions fun target htarget => .union hmem htarget
      exact Kind.valid_union_iff.mpr ⟨kind, hmem, ih kind hmem hdefines hfits⟩
    | nullable inner ih =>
      have hdefines := hkind.of_mentions fun target htarget => .nullable htarget
      rw [Kind.valid_nullable_iff]
      rcases check_nullable_iff.mp hchecked with ⟨-, hnull⟩ | ⟨-, hfits⟩
      · exact .inl hnull
      · exact .inr (ih hdefines hfits)

end SchemaTree

/-- The data of an exported document are valid against the schema at its top level, and every
default of a type that is reachable from the root is valid against the schema of its kind. -/
theorem data_valid_of_exportDocument {registry : Registry} {catalog : Catalog}
    {vocabulary : Vocabulary} {root : String} {value : Json} {document : Document}
    (h : (exportDocument registry catalog vocabulary root (some value)).2 = .ok document) :
    Valid document.definitions document.schema (.obj document.data) ∧
      ∀ type model, catalog.Reaches root type → catalog.get? type = some model →
        ∀ field ∈ model.fields, ∀ default, field.default = some default →
          Valid document.definitions field.kind.normalize.schema default := by
  obtain ⟨tree, htree, h⟩ := Outcome.bind_eq_ok_iff.mp h
  obtain ⟨context, -, h⟩ := Outcome.bind_eq_ok_iff.mp h
  have hassemble := Outcome.mapError_eq_ok_iff.mp h
  obtain ⟨hdefinitions, hschema⟩ := SchemaTree.schema_of_assemble hassemble
  obtain ⟨_, hpasses, h⟩ := Outcome.bind_eq_ok_iff.mp hassemble
  obtain ⟨data, hdata, h⟩ := Outcome.bind_eq_ok_iff.mp h
  cases h
  have hmirrors := SchemaTree.mirrors_of_introspect (Outcome.mapError_eq_ok_iff.mp htree)
  have hclosed := hmirrors.isClosed
  have hdefaults := hclosed.hasValidDefaults hpasses
  rw [hdefinitions, hschema]
  refine ⟨?_, ?_⟩
  · have hroot := Outcome.mapError_eq_ok_iff.mp hdata
    refine hclosed.valid_of_checkObject hdefaults (.inl rfl) ?_ hroot
    intro inner _ kind hkind checked hchecked
    exact hclosed.valid_of_check hdefaults hkind hchecked
  · intro type model hreach hmodel field hfield default hdefault
    have hget := hmirrors.get?_iff.mpr ⟨hreach, model, hmodel, rfl⟩
    exact hdefaults _ (SchemaTree.holds_of_get? hget) _ (List.mem_map_of_mem hfield) default hdefault

/-- A task with a part, both of them without an effort, and the part without parts. -/
def plannedTask : Json :=
  .obj [("name", .str "report"), ("parts", .arr [.obj [("name", .str "figures")]])]

/-- The defaults are filled in for the task as well as for its part. -/
example : (exportDocument ∅ SchemaTree.plannedTasks {} "Task" (some plannedTask)).2.toOption.map
    (·.data) =
      some [("name", .str "report"), ("effort", .num (.int 1)),
        ("parts", .arr [.obj [("name", .str "figures"), ("effort", .num (.int 1)),
          ("parts", .arr [])]])] := by
  cbv

/-- The data of a task with a part are valid, and so are the defaults of effort and parts. -/
theorem data_valid_of_exportDocument_plannedTask :
    ∃ document,
      (exportDocument ∅ SchemaTree.plannedTasks {} "Task" (some plannedTask)).2 = .ok document ∧
        Valid document.definitions document.schema (.obj document.data) ∧
        ∀ type model, SchemaTree.plannedTasks.Reaches "Task" type →
          SchemaTree.plannedTasks.get? type = some model →
            ∀ field ∈ model.fields, ∀ default, field.default = some default →
              Valid document.definitions field.kind.normalize.schema default := by
  have hok :
      (exportDocument ∅ SchemaTree.plannedTasks {} "Task" (some plannedTask)).2.isOk = true := by
    cbv
  obtain ⟨document, h⟩ := Outcome.exists_of_isOk hok
  exact ⟨document, h, data_valid_of_exportDocument h⟩

end LinkedSchema
