import LinkedSchema.Walk
import LinkedSchema.Proofs.Kind.References
import Mathlib.Logic.Relation

/-!
# References between models

The models of a catalog refer to each other through the kinds of their fields. A walk sees a model
as a list of steps. Where no step is a repeated field name, the steps are exactly the references
of the fields, and the names of the fields are distinct.
-/

namespace LinkedSchema

namespace Catalog

/-- A field of a type refers to another type. -/
def Refers (catalog : Catalog) (type target : String) : Prop :=
  ∃ model, catalog.get? type = some model ∧
    ∃ field ∈ model.fields, field.kind.Mentions target

/-- A field of a type refers to another type with no indirection around the reference. -/
def RefersDirectly (catalog : Catalog) (type target : String) : Prop :=
  ∃ model, catalog.get? type = some model ∧
    ∃ field ∈ model.fields, field.kind.MentionsDirectly target

/-- References lead from one type to another, over any number of types between. -/
def Reaches (catalog : Catalog) : String → String → Prop :=
  Relation.ReflTransGen catalog.Refers

end Catalog

/-- A field has an indirect or direct reference to each type it mentions. -/
theorem FieldDecl.exists_mem_references {field : FieldDecl} {target : String} (type : String)
    (h : field.kind.Mentions target) :
    ∃ reference ∈ field.references type, reference.target = target := by
  obtain ⟨flag, hedge⟩ := (@Kind.exists_mem_edges_iff target field.kind false).mpr h
  exact ⟨_, List.mem_map.mpr ⟨_, hedge, rfl⟩, rfl⟩

/-- A field has a direct reference to each type it mentions directly. -/
theorem FieldDecl.exists_mem_references_direct {field : FieldDecl} {target : String}
    (type : String) (h : field.kind.MentionsDirectly target) :
    ∃ reference ∈ field.references type,
      reference.target = target ∧ reference.referrer = type ∧ reference.indirect = false := by
  have hedge := (@Kind.mem_edges_false_iff target field.kind false).mpr ⟨rfl, h⟩
  exact ⟨_, List.mem_map.mpr ⟨_, hedge, rfl⟩, rfl, rfl, rfl⟩

/-- The target of a reference of a field is mentioned there, and directly so if the reference has
no indirection around it. -/
theorem FieldDecl.mentions_of_mem_references {field : FieldDecl} {type : String}
    {reference : Reference} (h : reference ∈ field.references type) :
    reference.referrer = type ∧ field.kind.Mentions reference.target ∧
      (reference.indirect = false → field.kind.MentionsDirectly reference.target) := by
  obtain ⟨⟨target, flag⟩, hedge, rfl⟩ := List.mem_map.mp h
  refine ⟨rfl, (@Kind.exists_mem_edges_iff target field.kind false).mp ⟨flag, hedge⟩, ?_⟩
  rintro rfl
  exact (Kind.mem_edges_false_iff.mp hedge).2

/-- A reference of a field bears the name of the field. -/
theorem FieldDecl.name_of_mem_references {field : FieldDecl} {type : String} {reference : Reference}
    (h : reference ∈ field.references type) : reference.field = field.name := by
  obtain ⟨edge, -, rfl⟩ := List.mem_map.mp h
  rfl

namespace Model

/-- A reference among the steps is a reference of some field. -/
theorem exists_field_of_mem_stepsAfter {type : String} {earlier : List String}
    {fields : List FieldDecl} {reference : Reference}
    (h : .reference reference ∈ stepsAfter type earlier fields) :
    ∃ field ∈ fields, reference ∈ field.references type := by
  induction fields generalizing earlier with
  | nil => simp [stepsAfter] at h
  | cons field fields ih =>
    rcases List.mem_append.mp h with h | h
    · split at h
      · simp at h
      · obtain ⟨other, hother, heq⟩ := List.mem_map.mp h
        cases heq
        exact ⟨field, List.mem_cons_self, hother⟩
    · obtain ⟨other, hother, hmem⟩ := ih h
      exact ⟨other, List.mem_cons_of_mem _ hother, hmem⟩

/-- A repeated name among the steps is the name of two fields at least, the earlier ones counted. -/
theorem two_le_count_of_mem_stepsAfter {type owner name : String} {earlier : List String}
    {fields : List FieldDecl} (h : .repeated owner name ∈ stepsAfter type earlier fields) :
    owner = type ∧ 2 ≤ (earlier ++ fields.map (·.name)).count name := by
  induction fields generalizing earlier with
  | nil => simp [stepsAfter] at h
  | cons field fields ih =>
    rcases List.mem_append.mp h with h | h
    · split at h
      · next hold =>
        obtain ⟨rfl, rfl⟩ : owner = type ∧ name = field.name := by simpa using h
        have hearlier : 0 < earlier.count field.name := List.count_pos_iff.mpr hold
        refine ⟨rfl, ?_⟩
        rw [List.map_cons, List.count_append, List.count_cons_self]
        omega
      · simp at h
    · obtain ⟨howner, hcount⟩ := ih h
      refine ⟨howner, ?_⟩
      have hsame : (field.name :: earlier ++ fields.map (·.name)).count name =
          (earlier ++ (field :: fields).map (·.name)).count name := by
        simp only [List.map_cons, List.cons_append, List.count_append, List.count_cons]
        omega
      omega

/-- Where every step is a reference, no field has the name of an earlier one. -/
theorem nodup_names_of_stepsAfter {type : String} {earlier : List String}
    {fields : List FieldDecl}
    (h : ∀ step ∈ stepsAfter type earlier fields, ∃ reference, step = .reference reference) :
    (fields.map (·.name)).Nodup ∧ ∀ field ∈ fields, field.name ∉ earlier := by
  induction fields generalizing earlier with
  | nil => simp
  | cons field fields ih =>
    have hnew : field.name ∉ earlier := by
      intro hold
      obtain ⟨reference, heq⟩ := h (.repeated type field.name) (by simp [stepsAfter, hold])
      cases heq
    obtain ⟨hnodup, hfresh⟩ := ih fun step hstep => h step (List.mem_append_right _ hstep)
    refine ⟨?_, ?_⟩
    · rw [List.map_cons, List.nodup_cons]
      refine ⟨?_, hnodup⟩
      intro hmem
      obtain ⟨other, hother, heq⟩ := List.mem_map.mp hmem
      exact hfresh other hother (heq ▸ List.mem_cons_self)
    · intro other hother hmem
      rcases List.mem_cons.mp hother with rfl | hother
      · exact hnew hmem
      · exact hfresh other hother (List.mem_cons_of_mem _ hmem)

/-- Every reference of a field that repeats no name is a step. -/
theorem reference_mem_stepsAfter {type : String} {earlier : List String}
    {fields : List FieldDecl} {field : FieldDecl} {reference : Reference}
    (hnodup : (fields.map (·.name)).Nodup) (hfresh : ∀ field ∈ fields, field.name ∉ earlier)
    (hfield : field ∈ fields) (h : reference ∈ field.references type) :
    .reference reference ∈ stepsAfter type earlier fields := by
  induction fields generalizing earlier with
  | nil => simp at hfield
  | cons first rest ih =>
    obtain ⟨hfirst, hrest⟩ := List.nodup_cons.mp hnodup
    rcases List.mem_cons.mp hfield with rfl | hfield
    · refine List.mem_append_left _ ?_
      rw [if_neg (hfresh field List.mem_cons_self)]
      exact List.mem_map_of_mem h
    · refine List.mem_append_right _ (ih hrest ?_ hfield)
      intro other hother hmem
      rcases List.mem_cons.mp hmem with heq | hmem
      · exact hfirst (List.mem_map.mpr ⟨other, hother, heq⟩)
      · exact hfresh other (List.mem_cons_of_mem _ hother) hmem

/-- No two fields of the model have one name. -/
def HasDistinctFields (model : Model) : Prop :=
  (model.fields.map (·.name)).Nodup

/-- A model whose steps are all references has distinct fields. -/
theorem hasDistinctFields_of_steps {model : Model}
    (h : ∀ step ∈ model.steps, ∃ reference, step = .reference reference) :
    model.HasDistinctFields :=
  (nodup_names_of_stepsAfter h).1

/-- Every reference of a model with distinct fields is a step of it. -/
theorem HasDistinctFields.reference_mem_steps {model : Model} (h : model.HasDistinctFields)
    {field : FieldDecl} {reference : Reference} (hfield : field ∈ model.fields)
    (hreference : reference ∈ field.references model.name) :
    .reference reference ∈ model.steps :=
  reference_mem_stepsAfter h (by simp) hfield hreference

/-- A reference among the steps of a defined model refers from this model to its target. -/
theorem refers_of_mem_steps {catalog : Catalog} {model : Model} {reference : Reference}
    (hmodel : catalog.get? model.name = some model) (h : .reference reference ∈ model.steps) :
    reference.referrer = model.name ∧ catalog.Refers model.name reference.target ∧
      (reference.indirect = false → catalog.RefersDirectly model.name reference.target) := by
  obtain ⟨field, hfield, hmem⟩ := exists_field_of_mem_stepsAfter h
  obtain ⟨hreferrer, hmentions, hdirect⟩ := FieldDecl.mentions_of_mem_references hmem
  refine ⟨hreferrer, ⟨model, hmodel, field, hfield, hmentions⟩, ?_⟩
  intro hflag
  exact ⟨model, hmodel, field, hfield, hdirect hflag⟩

end Model

end LinkedSchema
