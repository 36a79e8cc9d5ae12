import LinkedSchema.Json.Record
import LinkedSchema.Proofs.Json.Reading

/-!
# Writers and their readers

A reader that gets from the draft of what is written for a value this value back does so for lists of
such values and for records with such fields, and it reads the value back from its texts. A plain
value is written as it is; it is read back where no object in it has two members of one key.
-/

namespace LinkedSchema

variable {α : Type} {write : α → Json} {reader : Nat → Draft → Except ReadError α} {value : α}

/-- What is written for a value is read back as the value, where its nesting is allowed for. -/
def ReadsBack (write : α → Json) (reader : Nat → Draft → Except ReadError α) (value : α) : Prop :=
  ∀ depth, (write value).nesting ≤ depth → reader depth (write value).draft = .ok value

namespace Json

/-- A value that comes through its own text: no object in it has two members of one key, and the
numbers in it are read back as what they were. -/
structure IsPlain (value : Json) : Prop where
  keys : value.Everywhere HasDistinctKeys
  numbers : value.Everywhere Survives

instance : DecidablePred IsPlain :=
  fun value => decidable_of_iff (value.Everywhere HasDistinctKeys ∧ value.Everywhere Survives)
    ⟨fun ⟨hkeys, hnumbers⟩ => ⟨hkeys, hnumbers⟩, fun ⟨hkeys, hnumbers⟩ => ⟨hkeys, hnumbers⟩⟩

/-- The texts of a value, compact and indented. -/
def texts (value : Json) : List String :=
  [value.compact, value.pretty]

/-- A plain value is read back from its own text. -/
theorem IsPlain.readsBack {value : Json} (h : value.IsPlain) : ReadsBack id Draft.toJson value :=
  fun _ hdepth => Draft.toJson_draft hdepth h.keys

/-- Where the nesting of an array is allowed for, one less allows for that of each item. -/
theorem exists_depth_of_arr {items : List Json} {depth : Nat}
    (h : (Json.arr items).nesting ≤ depth) :
    ∃ inner, inner + 1 = depth ∧ ∀ item ∈ items, item.nesting ≤ inner := by
  obtain ⟨inner, rfl⟩ := Nat.exists_eq_add_one.mpr (Nat.lt_of_lt_of_le (Nat.succ_pos _) h)
  refine ⟨inner, rfl, fun item hitem => ?_⟩
  exact Nat.le_trans (nesting_le_of_mem hitem) (Nat.le_of_succ_le_succ h)

/-- Where the nesting of an object is allowed for, one less allows for that of each member. -/
theorem exists_depth_of_obj {members : List (String × Json)} {depth : Nat}
    (h : (Json.obj members).nesting ≤ depth) :
    ∃ inner, inner + 1 = depth ∧ ∀ member ∈ members, member.2.nesting ≤ inner := by
  obtain ⟨inner, rfl⟩ := Nat.exists_eq_add_one.mpr (Nat.lt_of_lt_of_le (Nat.succ_pos _) h)
  refine ⟨inner, rfl, fun member hmember => ?_⟩
  exact Nat.le_trans (nesting_le_of_mem_members hmember) (Nat.le_of_succ_le_succ h)

end Json

/-- What is read back from its draft is read back from its texts, if the numbers in it are. -/
theorem ReadsBack.readWith (h : ReadsBack write reader value)
    (hnumbers : (write value).Everywhere Json.Survives)
    (hnesting : (write value).nesting ≤ Draft.nestingLimit) :
    ∀ text ∈ (write value).texts, readWith reader text = .ok value := by
  have hread := h Draft.nestingLimit hnesting
  refine List.forall_mem_cons.mpr ⟨?_, List.forall_mem_singleton.mpr ?_⟩
  · exact Json.readWithin_draft (Json.spells_compactText hnumbers) hread
  · exact Json.readWithin_draft (Json.spells_prettyText hnumbers 0) hread

/-- Items that are read back one by one are read back in turn. -/
theorem mapM_draftItems {depth : Nat} {values : List α}
    (h : ∀ value ∈ values, reader depth (write value).draft = .ok value) :
    (Json.draftItems (values.map write)).mapM (reader depth) = .ok values := by
  induction values with
  | nil => rfl
  | cons value values ih =>
    obtain ⟨hvalue, hvalues⟩ := List.forall_mem_cons.mp h
    rw [List.map_cons, Json.draftItems, List.mapM_cons, hvalue, ih hvalues]
    rfl

/-- What is read back one by one is read back in a list. -/
theorem readsBack_list {values : List α} (h : ∀ value ∈ values, ReadsBack write reader value) :
    ReadsBack (fun values => .arr (values.map write)) (fun depth draft => draft.toList reader depth)
      values := by
  intro depth hdepth
  obtain ⟨depth, rfl, hinner⟩ := Json.exists_depth_of_arr hdepth
  have hitems : (Json.draftItems (values.map write)).mapM (reader depth) = .ok values :=
    mapM_draftItems fun value hmem =>
      h value hmem depth (hinner (write value) (List.mem_map_of_mem hmem))
  show Draft.toList reader (depth + 1) (.array (Json.draftItems (values.map write)) none) = _
  rw [Draft.toList, hitems]
  rfl

namespace RecordForm

variable {σ : Type} {form : RecordForm σ} {depth : Nat} {record next : σ}

/-- A member of a record is read into its field, and the others after it. -/
theorem fillMembers_cons {field : RecordField σ} {key : String} {draft : Draft}
    {members : List (Lexeme String × Draft)}
    (hfield : form.fields.find? (·.name = key) = some field)
    (hfree : field.isFilled record = false) (hfill : field.fill depth draft record = .ok next) :
    form.fillMembers depth record ((.sound key, draft) :: members) =
      form.fillMembers depth next members := by
  have hkey : (Lexeme.sound key).read = .ok key := rfl
  rw [fillMembers, hkey]
  simp [bind, Except.bind, hfield, hfree, hfill]

/-- What is read of a member is put into the record. -/
theorem fillMembers_put {β : Type} {field : RecordField σ} {key : String} {draft : Draft}
    {members : List (Lexeme String × Draft)} {outcome : Except ReadError β} {part : β}
    (put : σ → β → σ) (hfield : form.fields.find? (·.name = key) = some field)
    (hfree : field.isFilled record = false)
    (hfill : field.fill depth draft record = outcome >>= fun part => pure (put record part))
    (h : outcome = .ok part) :
    form.fillMembers depth record ((.sound key, draft) :: members) =
      form.fillMembers depth (put record part) members := by
  rw [h] at hfill
  exact fillMembers_cons hfield hfree hfill

/-- A record is read from an object whose members are all read. -/
theorem read_object {members : List (Lexeme String × Draft)}
    (h : form.fillMembers depth form.blank members = .ok record) :
    form.read (depth + 1) (.object members none) = .ok record := by
  rw [read, h]
  rfl

end RecordForm

end LinkedSchema
