import LinkedSchema.Catalog
import LinkedSchema.Metadata
import LinkedSchema.Proofs.Kind.Wire

/-!
# Catalogs are read back

A model is written with its name and its declarations, and a declaration with its name, its kind and
its default if it has one. A default of null is written and so is not lost. What is written is read
back, as far as the plain values in it are: the defaults and the literals of kinds. Metadata holds
texts only and is always read back.
-/

namespace LinkedSchema

open Json (IsStructural)

variable {holds : Json → Prop}

namespace FieldMetadata

/-- Metadata is read back from what is written for it, whichever of its parts are there. -/
theorem readsBack (metadata : FieldMetadata) : ReadsBack toJson ofDraft metadata := by
  intro depth hdepth
  obtain ⟨depth, rfl, -⟩ := Json.exists_depth_of_obj hdepth
  obtain ⟨id, unit, description⟩ := metadata
  cases id <;> cases unit <;> cases description <;> rfl

/-- No number is written for metadata. -/
theorem everywhere_survives (metadata : FieldMetadata) :
    metadata.toJson.Everywhere Json.Survives := by
  have hpart : ∀ key part, ∀ entry ∈ member key part, entry.2.Everywhere Json.Survives := by
    intro key part entry hentry
    obtain ⟨text, -, rfl⟩ := Option.map_eq_some_iff.mp (Option.mem_toList.mp hentry)
    exact Json.everywhere_str_iff.mpr trivial
  refine Json.everywhere_obj_iff.mpr ⟨trivial, ?_⟩
  simp only [List.forall_mem_append]
  exact ⟨⟨hpart _ _, hpart _ _⟩, hpart _ _⟩

/-- The texts of metadata stand in one object. -/
theorem nesting_toJson (metadata : FieldMetadata) : metadata.toJson.nesting = 1 := by
  obtain ⟨id, unit, description⟩ := metadata
  cases id <;> cases unit <;> cases description <;> rfl

/-- Metadata is read back from its texts. -/
theorem read_texts (metadata : FieldMetadata) :
    ∀ text ∈ metadata.toJson.texts, read text = .ok metadata := by
  have hnesting : metadata.toJson.nesting ≤ Draft.nestingLimit := by
    rw [nesting_toJson]
    decide
  exact metadata.readsBack.readWith metadata.everywhere_survives hnesting

end FieldMetadata

namespace FieldDecl

variable {field : FieldDecl}

/-- The values in a declaration that are written as they are: the literals of its kind and its
default. -/
def values (field : FieldDecl) : List Json :=
  field.kind.literals ++ field.default.toList

/-- What is structural holds everywhere in what is written for a declaration if it does in the
values. -/
theorem everywhere_toJson (h : IsStructural holds)
    (hvalues : ∀ value ∈ field.values, value.Everywhere holds) :
    field.toJson.Everywhere holds := by
  rw [values, List.forall_mem_append] at hvalues
  obtain ⟨hliterals, hdefault⟩ := hvalues
  have hkind := Kind.everywhere_toJson h hliterals
  rw [toJson]
  cases hfield : field.default with
  | none => simp [h.obj, h.str, Table.keys, hkind]
  | some default =>
    have hvalue : default.Everywhere holds := hdefault default (by simp [hfield])
    simp [h.obj, h.str, Table.keys, hkind, hvalue]

/-- A declaration is read back from what is written for it, with its default or without one, if its
values are plain. -/
theorem readsBack (h : ∀ value ∈ field.values, value.IsPlain) :
    ReadsBack toJson ofDraft field := by
  obtain ⟨name, kind, default⟩ := field
  obtain ⟨hliterals, hdefault⟩ := List.forall_mem_append.mp h
  intro depth hdepth
  obtain ⟨depth, rfl, hinner⟩ := Json.exists_depth_of_obj hdepth
  have hkind : Kind.ofDraft depth kind.toJson.draft = .ok kind :=
    Kind.readsBack hliterals depth (hinner ("kind", kind.toJson) (by simp))
  have hstart : ∀ members, form.fillMembers depth form.blank
      ((.sound "name", .text (.sound name)) :: (.sound "kind", kind.toJson.draft) :: members) =
        form.fillMembers depth { name := some name, kind := some kind } members := by
    intro members
    rw [RecordForm.fillMembers_cons rfl rfl rfl]
    exact RecordForm.fillMembers_put
      (fun (parts : Parts) kind => { parts with kind := some kind }) rfl rfl rfl hkind
  have hread : form.read (depth + 1) (toJson { name, kind, default }).draft =
      .ok { name := some name, kind := some kind, default := default } := by
    refine RecordForm.read_object ?_
    cases default with
    | none => exact hstart []
    | some default =>
      have hvalue : default.draft.toJson depth = .ok default :=
        (hdefault default (by simp)).readsBack depth (hinner ("default", default) (by simp))
      refine (hstart [(.sound "default", default.draft)]).trans ?_
      exact RecordForm.fillMembers_put
        (fun (parts : Parts) value => { parts with default := some value }) rfl rfl rfl hvalue
  rw [ofDraft, hread]
  rfl

/-- A declaration is read back from its texts, if its values are plain. -/
theorem read_texts (h : ∀ value ∈ field.values, value.IsPlain)
    (hnesting : field.toJson.nesting ≤ Draft.nestingLimit) :
    ∀ text ∈ field.toJson.texts, readWith ofDraft text = .ok field := by
  have hnumbers : field.toJson.Everywhere Json.Survives :=
    everywhere_toJson Json.isStructural_survives fun value hvalue => (h value hvalue).numbers
  exact (readsBack h).readWith hnumbers hnesting

end FieldDecl

namespace Model

variable {model : Model}

/-- The values in a model that are written as they are. -/
def values (model : Model) : List Json :=
  model.fields.flatMap FieldDecl.values

/-- What is structural holds everywhere in what is written for a model if it does in the values. -/
theorem everywhere_toJson (h : IsStructural holds)
    (hvalues : ∀ value ∈ model.values, value.Everywhere holds) :
    model.toJson.Everywhere holds := by
  have hfields : ∀ field ∈ model.fields, field.toJson.Everywhere holds := by
    intro field hfield
    exact FieldDecl.everywhere_toJson h fun value hvalue =>
      hvalues value (List.mem_flatMap.mpr ⟨field, hfield, hvalue⟩)
  simpa [toJson, h.obj, h.arr, h.str, Table.keys] using hfields

/-- A model is read back from what is written for it, if its values are plain. -/
theorem readsBack (h : ∀ value ∈ model.values, value.IsPlain) :
    ReadsBack toJson ofDraft model := by
  obtain ⟨name, fields⟩ := model
  intro depth hdepth
  obtain ⟨depth, rfl, hinner⟩ := Json.exists_depth_of_obj hdepth
  have hdeclared : ∀ field ∈ fields, ReadsBack FieldDecl.toJson FieldDecl.ofDraft field := by
    intro field hfield
    exact FieldDecl.readsBack fun value hvalue =>
      h value (List.mem_flatMap.mpr ⟨field, hfield, hvalue⟩)
  have hfields : (Json.arr (fields.map FieldDecl.toJson)).draft.toList FieldDecl.ofDraft depth =
      .ok fields :=
    readsBack_list hdeclared depth (hinner ("fields", _) (by simp))
  have hread : form.read (depth + 1) (toJson { name, fields }).draft =
      .ok { name := some name, fields := some fields } := by
    refine RecordForm.read_object ?_
    show form.fillMembers depth {} [(.sound "name", .text (.sound name)),
      (.sound "fields", (Json.arr (fields.map FieldDecl.toJson)).draft)] = _
    rw [RecordForm.fillMembers_cons rfl rfl rfl]
    exact RecordForm.fillMembers_put
      (fun (parts : Parts) fields => { parts with fields := some fields }) rfl rfl rfl hfields
  rw [ofDraft, hread]
  rfl

/-- The numbers in what is written for a model survive if its values are plain. -/
theorem everywhere_survives (h : ∀ value ∈ model.values, value.IsPlain) :
    model.toJson.Everywhere Json.Survives :=
  everywhere_toJson Json.isStructural_survives fun value hvalue => (h value hvalue).numbers

/-- A model is read back from its texts, if its values are plain. -/
theorem read_texts (h : ∀ value ∈ model.values, value.IsPlain)
    (hnesting : model.toJson.nesting ≤ Draft.nestingLimit) :
    ∀ text ∈ model.toJson.texts, readWith ofDraft text = .ok model :=
  (readsBack h).readWith (everywhere_survives h) hnesting

end Model

namespace Catalog

/-- Under a name a catalog has the last model that was defined under it, or what it had before. -/
theorem get?_foldl_define (models : List Model) (catalog : Catalog) (name : String) :
    (models.foldl define catalog).get? name =
      (models.reverse.find? (·.name = name)).or (catalog.get? name) := by
  induction models generalizing catalog with
  | nil => rfl
  | cons model models ih =>
    rw [List.foldl_cons, ih, get?_define, List.reverse_cons, List.find?_append, Option.or_assoc]
    congr 1
    by_cases hname : model.name = name <;> simp [hname]

/-- A catalog of models has the last one of each name. -/
theorem get?_ofModels (models : List Model) (name : String) :
    (ofModels models).get? name = models.reverse.find? (·.name = name) := by
  rw [ofModels, get?_foldl_define]
  exact Option.or_none

/-- The catalog of a list of models is read back from the texts of the list, if the values in the
models are plain. -/
theorem read_texts {models : List Model}
    (h : ∀ model ∈ models, ∀ value ∈ model.values, value.IsPlain)
    (hnesting : (Json.arr (models.map Model.toJson)).nesting ≤ Draft.nestingLimit) :
    ∀ text ∈ (Json.arr (models.map Model.toJson)).texts,
      Catalog.read text = .ok (ofModels models) := by
  have hmodels : ∀ model ∈ models, ReadsBack Model.toJson Model.ofDraft model :=
    fun model hmodel => Model.readsBack (h model hmodel)
  have hnumbers : (Json.arr (models.map Model.toJson)).Everywhere Json.Survives := by
    refine Json.everywhere_arr_iff.mpr ⟨trivial, List.forall_mem_map.mpr fun model hmodel => ?_⟩
    exact Model.everywhere_survives (h model hmodel)
  intro text htext
  have hread : Model.readAll text = .ok models :=
    (readsBack_list hmodels).readWith hnumbers hnesting text htext
  rw [Catalog.read, hread]
  rfl

end Catalog

/-- What is written is not lost. The catalog of any list of models is read back from the text of the
list, with the last model of each name, and every model, declaration, kind and metadata is read back
from its own text as it was, so that a default of null stays one and an absent default stays absent.
This holds where no default or literal has an object with two members of one key or a number that is
not read back, and where the text is not nested too deep. -/
theorem wire_readsBack :
    (∀ models : List Model, (∀ model ∈ models, ∀ value ∈ model.values, value.IsPlain) →
        (Json.arr (models.map Model.toJson)).nesting ≤ Draft.nestingLimit →
        (∀ text ∈ (Json.arr (models.map Model.toJson)).texts,
            Catalog.read text = .ok (.ofModels models)) ∧
          ∀ name, (Catalog.ofModels models).get? name = models.reverse.find? (·.name = name)) ∧
      (∀ model : Model, (∀ value ∈ model.values, value.IsPlain) →
        model.toJson.nesting ≤ Draft.nestingLimit →
        ∀ text ∈ model.toJson.texts, readWith Model.ofDraft text = .ok model) ∧
      (∀ field : FieldDecl, (∀ value ∈ field.values, value.IsPlain) →
        field.toJson.nesting ≤ Draft.nestingLimit →
        ∀ text ∈ field.toJson.texts, readWith FieldDecl.ofDraft text = .ok field) ∧
      (∀ kind : Kind, (∀ literal ∈ kind.literals, literal.IsPlain) →
        kind.toJson.nesting ≤ Draft.nestingLimit →
        ∀ text ∈ kind.toJson.texts, Kind.read text = .ok kind) ∧
      ∀ metadata : FieldMetadata, ∀ text ∈ metadata.toJson.texts,
        FieldMetadata.read text = .ok metadata := by
  refine ⟨?_, ?_, ?_, ?_, ?_⟩
  · intro models h hnesting
    exact ⟨Catalog.read_texts h hnesting, Catalog.get?_ofModels models⟩
  · intro model h hnesting
    exact Model.read_texts h hnesting
  · intro field h hnesting
    exact FieldDecl.read_texts h hnesting
  · intro kind h hnesting
    exact Kind.read_texts h hnesting
  · intro metadata
    exact metadata.read_texts

/-- A run with a default of null, one without a default and literals of several forms, and a later
model of the same name. -/
def restartedRuns : List Model :=
  [{ name := "Run", fields := [{ name := "label", kind := .scalar .string }] },
    { name := "Run", fields := [
      { name := "seed", kind := .nullable (.scalar .integer), default := some .null },
      { name := "parent", kind := .nullable (.reference "Run") },
      { name := "mode", kind := .union [.enumeration [.str "fast", .null, .num (.int (-1))],
          .collection (.scalar .any)],
        default := some (.arr [.obj [("steps", .num (.int 3))]]) }] }]

/-- The later of the two models is read back with its three fields, and a default of null stays
apart from none. -/
theorem wire_readsBack_restartedRuns :
    (∀ text ∈ (Json.arr (restartedRuns.map Model.toJson)).texts,
        Catalog.read text = .ok (.ofModels restartedRuns)) ∧
      ((Catalog.ofModels restartedRuns).get? "Run").map (·.fields.length) = some 3 ∧
      ∀ default? : Option Json, default? = some .null ∨ default? = none →
        ∀ text ∈ (FieldDecl.toJson { name := "seed", kind := .null, default := default? }).texts,
          readWith FieldDecl.ofDraft text =
            .ok { name := "seed", kind := .null, default := default? } := by
  obtain ⟨hmodels, -, hfields, -, -⟩ := wire_readsBack
  obtain ⟨hread, hget⟩ := hmodels restartedRuns (by decide +kernel) (by decide +kernel)
  refine ⟨hread, ?_, ?_⟩
  · rw [hget]
    decide
  · rintro default? (rfl | rfl)
    · exact hfields _ (by decide +kernel) (by decide +kernel)
    · exact hfields _ (by decide +kernel) (by decide +kernel)

end LinkedSchema
