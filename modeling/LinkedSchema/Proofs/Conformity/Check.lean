import LinkedSchema.Conformity
import LinkedSchema.Proofs.Outcome
import Mathlib.Data.List.Forall2

/-!
# What a check accepts and gives

For each kind, when a value passes the check and what the check gives for it. An array and the
fields of an object are checked one by one, a union takes what its first fitting member takes, and
an absent field is filled with its default as it stands.
-/

namespace LinkedSchema

/-- A list can be related one by one to some list exactly where each of its elements can be related
to something. -/
theorem exists_forall₂_iff {α β : Type} {R : α → β → Prop} {elements : List α} :
    (∃ others, List.Forall₂ R elements others) ↔ ∀ element ∈ elements, ∃ other, R element other := by
  induction elements with
  | nil => simp
  | cons element elements ih =>
    rw [List.forall_mem_cons, ← ih]
    constructor
    · rintro ⟨others, h⟩
      cases h with
      | cons hfirst hrest => exact ⟨⟨_, hfirst⟩, _, hrest⟩
    · rintro ⟨⟨other, hfirst⟩, others, hrest⟩
      exact ⟨other :: others, .cons hfirst hrest⟩

/-- Of two lists that are related one by one, each element of the second comes from one of the
first. -/
theorem exists_mem_of_forall₂ {α β : Type} {R : α → β → Prop} {elements : List α} {others : List β}
    (h : List.Forall₂ R elements others) {other : β} (hother : other ∈ others) :
    ∃ element ∈ elements, R element other := by
  induction h with
  | nil => cases hother
  | cons hfirst _ ih =>
    rcases List.mem_cons.mp hother with rfl | hother
    · exact ⟨_, List.mem_cons_self, hfirst⟩
    · obtain ⟨element, helement, hrelated⟩ := ih hother
      exact ⟨element, List.mem_cons_of_mem _ helement, hrelated⟩

namespace SchemaTree

variable {tree : SchemaTree} {value checked : Json}

/-- A scalar takes the values of its type and leaves them as they are. -/
theorem check_scalar_iff {type : ScalarType} :
    tree.check (.scalar type) value = .ok checked ↔ type.accepts value = true ∧ checked = value := by
  rw [check]
  split
  · next h => simp [h, eq_comm]
  · next h => simp [h]

/-- An enumeration takes values that are equal to a literal and leaves them as they are. -/
theorem check_enumeration_iff {literals : List Json} :
    tree.check (.enumeration literals) value = .ok checked ↔
      literals.any (·.equal value) = true ∧ checked = value := by
  rw [check]
  split
  · next h => simp [h, eq_comm]
  · next h => simp [h]

/-- A reference takes an object that fits the definition of its type. -/
theorem check_reference_iff {name : String} {definition : TypeDefinition}
    (h : tree.get? name = some definition) :
    tree.check (.reference name) value = .ok checked ↔
      ∃ data, tree.checkObject definition value = .ok data ∧ .obj data = checked := by
  rw [check]
  split
  · next hnone =>
    rw [h] at hnone
    cases hnone
  · next found hfound =>
    obtain rfl : definition = found := Option.some.inj (h.symm.trans hfound)
    exact Outcome.map_eq_ok_iff

/-- Items are checked one by one, wherever the first of them stands. -/
theorem checkItems_eq_ok_iff {kind : Kind} {position : Nat} {items results : List Json} :
    tree.checkItems kind position items = .ok results ↔
      List.Forall₂ (fun item result => tree.check kind item = .ok result) items results := by
  induction items generalizing position results with
  | nil => simp [checkItems, eq_comm]
  | cons item items ih =>
    rw [checkItems, List.forall₂_cons_left_iff, Outcome.bind_eq_ok_iff]
    constructor
    · rintro ⟨result, hresult, h⟩
      obtain ⟨others, hothers, heq⟩ := Outcome.bind_eq_ok_iff.mp h
      cases heq
      exact ⟨result, others, Outcome.mapError_eq_ok_iff.mp hresult, ih.mp hothers, rfl⟩
    · rintro ⟨result, others, hresult, hothers, rfl⟩
      refine ⟨result, Outcome.mapError_eq_ok_iff.mpr hresult, ?_⟩
      exact Outcome.bind_eq_ok_iff.mpr ⟨others, ih.mpr hothers, rfl⟩

/-- A collection takes an array of values that its items take. -/
theorem check_collection_iff {item : Kind} :
    tree.check (.collection item) value = .ok checked ↔
      ∃ items results, value = .arr items ∧
        List.Forall₂ (fun inner result => tree.check item inner = .ok result) items results ∧
        .arr results = checked := by
  rw [check.eq_def]
  cases value with
  | arr items =>
    simp only [Outcome.map_eq_ok_iff, checkItems_eq_ok_iff, Json.arr.injEq]
    constructor
    · rintro ⟨results, hresults, heq⟩
      exact ⟨items, results, rfl, hresults, heq⟩
    · rintro ⟨_, results, rfl, hresults, heq⟩
      exact ⟨results, hresults, heq⟩
  | _ => simp

/-- A fitting member is found exactly where some member takes the value, and the value is given as
one of them takes it. -/
theorem check_of_firstFit {members : List Kind} (h : tree.firstFit members value = some checked) :
    ∃ kind ∈ members, tree.check kind value = .ok checked := by
  induction members with
  | nil => simp [firstFit] at h
  | cons kind kinds ih =>
    rw [firstFit] at h
    split at h
    · next result hresult =>
      obtain rfl : result = checked := Option.some.inj h
      exact ⟨kind, List.mem_cons_self, hresult⟩
    · obtain ⟨other, hother, hchecked⟩ := ih h
      exact ⟨other, List.mem_cons_of_mem _ hother, hchecked⟩

/-- If some member takes the value, a fitting member is found. -/
theorem exists_firstFit {members : List Kind} {kind : Kind} (hkind : kind ∈ members)
    (h : tree.check kind value = .ok checked) :
    ∃ result, tree.firstFit members value = some result := by
  induction members with
  | nil => cases hkind
  | cons first kinds ih =>
    rw [firstFit]
    split
    · next result _ => exact ⟨result, rfl⟩
    · next hfirst =>
      rcases List.mem_cons.mp hkind with rfl | hkind
      · rw [h] at hfirst
        cases hfirst
      · exact ih hkind

/-- The member that decides is the first that takes the value. -/
theorem firstFit_eq_some_iff {members : List Kind} :
    tree.firstFit members value = some checked ↔
      ∃ before kind after, members = before ++ kind :: after ∧
        (∀ earlier ∈ before, ∀ other, tree.check earlier value ≠ .ok other) ∧
          tree.check kind value = .ok checked := by
  constructor
  · intro h
    induction members with
    | nil => simp [firstFit] at h
    | cons first kinds ih =>
      rw [firstFit] at h
      split at h
      · next result hresult =>
        obtain rfl : result = checked := Option.some.inj h
        exact ⟨[], first, kinds, rfl, by simp, hresult⟩
      · next hfirst =>
        obtain ⟨before, kind, after, rfl, hbefore, hchecked⟩ := ih h
        refine ⟨first :: before, kind, after, rfl, ?_, hchecked⟩
        exact List.forall_mem_cons.mpr ⟨by simp [hfirst], hbefore⟩
  · rintro ⟨before, kind, after, rfl, hbefore, hchecked⟩
    induction before with
    | nil => rw [List.nil_append, firstFit, hchecked]
    | cons first before ih =>
      obtain ⟨hfirst, hbefore⟩ := List.forall_mem_cons.mp hbefore
      rw [List.cons_append, firstFit]
      split
      · next result hresult => exact absurd hresult (hfirst result)
      · exact ih hbefore

/-- A union takes what its first fitting member takes. -/
theorem check_union_iff {members : List Kind} :
    tree.check (.union members) value = .ok checked ↔
      tree.firstFit members value = some checked := by
  rw [check]
  split
  · next result h => simp [h]
  · next h => simp [h]

/-- A nullable takes null, and of other values what the kind inside takes. -/
theorem check_nullable_iff {inner : Kind} :
    tree.check (.nullable inner) value = .ok checked ↔
      (value = .null ∧ checked = .null) ∨ (value ≠ .null ∧ tree.check inner value = .ok checked) := by
  rw [check]
  split
  · next h => simp [h, eq_comm]
  · next h => simp [h]

/-- A value passes the check for a kind. -/
def Passes (tree : SchemaTree) (kind : Kind) (value : Json) : Prop :=
  ∃ checked, tree.check kind value = .ok checked

/-- What passes for a scalar are the values of its type. -/
theorem passes_scalar_iff {type : ScalarType} :
    tree.Passes (.scalar type) value ↔ type.accepts value = true := by
  simp [Passes, check_scalar_iff]

/-- What passes for an enumeration is equal to a literal. -/
theorem passes_enumeration_iff {literals : List Json} :
    tree.Passes (.enumeration literals) value ↔ literals.any (·.equal value) = true := by
  simp only [Passes, check_enumeration_iff, exists_and_left, exists_eq, and_true]

/-- What passes for a reference are the objects that fit a definition of its type. -/
theorem passes_reference_iff {name : String} :
    tree.Passes (.reference name) value ↔ ∃ definition, tree.get? name = some definition ∧
      ∃ data, tree.checkObject definition value = .ok data := by
  cases hget : tree.get? name with
  | none =>
    have hfails : ¬ tree.Passes (.reference name) value := by
      rintro ⟨checked, hchecked⟩
      rw [check] at hchecked
      split at hchecked
      · cases hchecked
      · next definition hdefinition =>
        rw [hget] at hdefinition
        cases hdefinition
    simp [hfails]
  | some definition =>
    simp only [Passes, check_reference_iff hget, Option.some.injEq, exists_eq_left']
    constructor
    · rintro ⟨_, data, hdata, -⟩
      exact ⟨data, hdata⟩
    · rintro ⟨data, hdata⟩
      exact ⟨_, data, hdata, rfl⟩

/-- What passes for a collection are the arrays whose items pass. -/
theorem passes_collection_iff {item : Kind} :
    tree.Passes (.collection item) value ↔
      ∃ items, value = .arr items ∧ ∀ inner ∈ items, tree.Passes item inner := by
  constructor
  · rintro ⟨checked, hchecked⟩
    obtain ⟨items, results, hvalue, hresults, -⟩ := check_collection_iff.mp hchecked
    exact ⟨items, hvalue, exists_forall₂_iff.mp ⟨results, hresults⟩⟩
  · rintro ⟨items, hvalue, hpasses⟩
    obtain ⟨results, hresults⟩ := exists_forall₂_iff.mpr hpasses
    exact ⟨_, check_collection_iff.mpr ⟨items, results, hvalue, hresults, rfl⟩⟩

/-- What passes for a union passes for one of its members. -/
theorem passes_union_iff {members : List Kind} :
    tree.Passes (.union members) value ↔ ∃ kind ∈ members, tree.Passes kind value := by
  simp only [Passes, check_union_iff]
  constructor
  · rintro ⟨checked, hchecked⟩
    obtain ⟨kind, hkind, hfits⟩ := check_of_firstFit hchecked
    exact ⟨kind, hkind, checked, hfits⟩
  · rintro ⟨kind, hkind, checked, hfits⟩
    exact exists_firstFit hkind hfits

/-- What passes for a nullable is null or passes for the kind inside. -/
theorem passes_nullable_iff {inner : Kind} :
    tree.Passes (.nullable inner) value ↔ value = .null ∨ tree.Passes inner value := by
  simp only [Passes, check_nullable_iff]
  constructor
  · rintro ⟨checked, ⟨hnull, -⟩ | ⟨-, hfits⟩⟩
    · exact .inl hnull
    · exact .inr ⟨checked, hfits⟩
  · intro hpasses
    by_cases hnull : value = .null
    · exact ⟨.null, .inl ⟨hnull, rfl⟩⟩
    · obtain ⟨checked, hfits⟩ := hpasses.resolve_left hnull
      exact ⟨checked, .inr ⟨hnull, hfits⟩⟩

/-- The value with which a field of an object is filled: what the given member is checked to, or
the default where there is none. -/
def Fills (tree : SchemaTree) (members : List (String × Json)) (field : Property)
    (checked : Json) : Prop :=
  match Table.get? members field.name with
  | some given => tree.check field.kind given = .ok checked
  | none => field.default = some checked

/-- The entries of an object are its fields in order, each with what it is filled with. -/
theorem checkFields_eq_ok_iff {fields : List Property} {members entries : List (String × Json)} :
    tree.checkFields fields members = .ok entries ↔
      List.Forall₂ (fun field entry => field.name = entry.1 ∧ tree.Fills members field entry.2)
        fields entries := by
  induction fields generalizing entries with
  | nil => simp [checkFields, eq_comm]
  | cons field fields ih =>
    rw [checkFields, List.forall₂_cons_left_iff, Outcome.bind_eq_ok_iff]
    constructor
    · rintro ⟨result, hresult, h⟩
      obtain ⟨others, hothers, heq⟩ := Outcome.bind_eq_ok_iff.mp h
      cases heq
      refine ⟨_, others, ⟨rfl, ?_⟩, ih.mp hothers, rfl⟩
      split at hresult
      · next given hgiven =>
        rw [Fills, hgiven]
        exact Outcome.mapError_eq_ok_iff.mp hresult
      · next hnone =>
        rw [Fills, hnone]
        cases hdefault : field.default with
        | none => simp [hdefault] at hresult
        | some default => simpa [hdefault] using hresult
    · rintro ⟨⟨name, result⟩, others, ⟨rfl, hfills⟩, hothers, rfl⟩
      refine ⟨result, ?_, Outcome.bind_eq_ok_iff.mpr ⟨others, ih.mpr hothers, rfl⟩⟩
      split
      · next given hgiven =>
        rw [Fills, hgiven] at hfills
        exact Outcome.mapError_eq_ok_iff.mpr hfills
      · next hnone =>
        rw [Fills, hnone] at hfills
        simp only at hfills
        rw [hfills, Option.elim_some]

/-- The fields of an object and the entries with which they are filled have the same names. -/
theorem keys_of_filled {fields : List Property} {members entries : List (String × Json)}
    (h : List.Forall₂ (fun field entry => field.name = entry.1 ∧ tree.Fills members field entry.2)
      fields entries) : Table.keys entries = fields.map (·.name) := by
  induction h with
  | nil => rfl
  | cons hfirst _ ih =>
    simp only [Table.keys] at ih
    rw [Table.keys, List.map_cons, List.map_cons, ih, hfirst.1]

/-- An object passes if every key is that of a field and every field can be filled. -/
theorem checkObject_eq_ok_iff {definition : TypeDefinition} {data : Table Json} :
    tree.checkObject definition value = .ok data ↔
      ∃ members entries, value = .obj members ∧
        (∀ key ∈ Table.keys members, ∃ field ∈ definition.fields, field.name = key) ∧
        List.Forall₂ (fun field entry => field.name = entry.1 ∧ tree.Fills members field entry.2)
          definition.fields entries ∧ Table.ofList entries = data := by
  have hkeys : ∀ members : List (String × Json), unknownKey? definition members = none ↔
      ∀ key ∈ Table.keys members, ∃ field ∈ definition.fields, field.name = key := by
    intro members
    simp [unknownKey?, TypeDefinition.field?, Table.keys]
  rw [checkObject.eq_def]
  cases value with
  | obj members =>
    simp only [Json.obj.injEq]
    split
    · next key hkey =>
      constructor
      · rintro ⟨⟩
      · rintro ⟨_, entries, rfl, hknown, -⟩
        rw [(hkeys _).mpr hknown] at hkey
        cases hkey
    · next hnone =>
      rw [Outcome.map_eq_ok_iff]
      simp only [checkFields_eq_ok_iff]
      constructor
      · rintro ⟨entries, hentries, heq⟩
        exact ⟨members, entries, rfl, (hkeys members).mp hnone, hentries, heq⟩
      · rintro ⟨_, entries, rfl, -, hentries, heq⟩
        exact ⟨entries, hentries, heq⟩
  | _ => simp

/-- Some data come out exactly if every key is that of a field and every field can be filled. -/
theorem exists_checkObject_iff {definition : TypeDefinition} :
    (∃ data, tree.checkObject definition value = .ok data) ↔
      ∃ members, value = .obj members ∧
        (∀ key ∈ Table.keys members, ∃ field ∈ definition.fields, field.name = key) ∧
        ∀ field ∈ definition.fields, ∃ checked, tree.Fills members field checked := by
  constructor
  · rintro ⟨data, hdata⟩
    obtain ⟨members, entries, hvalue, hknown, hentries, -⟩ := checkObject_eq_ok_iff.mp hdata
    refine ⟨members, hvalue, hknown, ?_⟩
    intro field hfield
    obtain ⟨entry, -, hfills⟩ := exists_forall₂_iff.mp ⟨entries, hentries⟩ field hfield
    exact ⟨entry.2, hfills⟩
  · rintro ⟨members, hvalue, hknown, hfilled⟩
    have hentry : ∀ field ∈ definition.fields,
        ∃ entry : String × Json, field.name = entry.1 ∧ tree.Fills members field entry.2 := by
      intro field hfield
      obtain ⟨checked, hfills⟩ := hfilled field hfield
      exact ⟨(field.name, checked), rfl, hfills⟩
    obtain ⟨entries, hentries⟩ := exists_forall₂_iff.mpr hentry
    exact ⟨_, checkObject_eq_ok_iff.mpr ⟨members, entries, hvalue, hknown, hentries, rfl⟩⟩

end SchemaTree

end LinkedSchema
