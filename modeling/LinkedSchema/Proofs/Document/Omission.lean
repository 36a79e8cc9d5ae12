import LinkedSchema.Proofs.Document.Data

/-!
# Omitted fields

A field with a default may be left out of an instance. This is as good as giving it its default, as
far as the success of an assembly goes. The data are the same but for the field itself: left out, it
has the default as it stands, and given, it has what the check makes of the default, which fills in
the defaults of types that the field refers to.
-/

namespace LinkedSchema

namespace SchemaTree

variable {tree : SchemaTree} {value checked : Json} {members : List (String × Json)}
  {field : Property} {default : Json}

/-- A value of a kind that mentions no type is given back as it stands. -/
theorem eq_of_check {kind : Kind} (hkind : ∀ target, ¬ kind.Mentions target)
    (h : tree.check kind value = .ok checked) : checked = value := by
  induction kind using Kind.induction generalizing value checked with
  | scalar type => exact (check_scalar_iff.mp h).2
  | enumeration literals => exact (check_enumeration_iff.mp h).2
  | reference name => exact absurd .reference (hkind name)
  | collection item ih =>
    obtain ⟨items, results, rfl, hresults, rfl⟩ := check_collection_iff.mp h
    have hitem : ∀ target, ¬ item.Mentions target :=
      fun target htarget => hkind target (.collection htarget)
    have hsame : List.Forall₂ (fun inner result => inner = result) items results :=
      hresults.imp fun inner result hresult => (ih hitem hresult).symm
    rw [List.forall₂_eq_eq_eq] at hsame
    rw [hsame]
  | union members ih =>
    obtain ⟨kind, hmem, hfits⟩ := check_of_firstFit (check_union_iff.mp h)
    exact ih kind hmem (fun target htarget => hkind target (.union hmem htarget)) hfits
  | nullable inner ih =>
    rcases check_nullable_iff.mp h with ⟨rfl, rfl⟩ | ⟨-, hfits⟩
    · rfl
    · exact ih (fun target htarget => hkind target (.nullable htarget)) hfits

/-- A field is filled in one way only. -/
theorem Fills.unique {other : Json} (h : tree.Fills members field checked)
    (hother : tree.Fills members field other) : checked = other := by
  unfold Fills at h hother
  cases hget : Table.get? members field.name with
  | some given =>
    simp only [hget] at h hother
    exact Except.ok.inj (h.symm.trans hother)
  | none =>
    simp only [hget] at h hother
    exact Option.some.inj (h.symm.trans hother)

/-- A field that is left out is filled with its default. -/
theorem fills_absent_iff (habsent : Table.get? members field.name = none) :
    tree.Fills members field checked ↔ field.default = some checked := by
  rw [Fills, habsent]

/-- A field that is given is filled with what the check makes of the given value. -/
theorem fills_insert_self_iff :
    tree.Fills (Table.insert members field.name value) field checked ↔
      tree.check field.kind value = .ok checked := by
  rw [Fills, Table.get?_insert, if_pos rfl]

/-- Giving a value for one field leaves the others as they are filled. -/
theorem fills_insert_iff {other : Property} (hname : field.name ≠ other.name) :
    tree.Fills (Table.insert members field.name value) other checked ↔
      tree.Fills members other checked := by
  simp only [Fills, Table.get?_insert, if_neg hname]

/-- Fields of other names than the given one are filled with the same entries. -/
theorem entries_eq_of_filled {fields : List Property} {entries others : List (String × Json)}
    (hnames : field.name ∉ fields.map (·.name))
    (h : List.Forall₂ (fun field entry => field.name = entry.1 ∧ tree.Fills members field entry.2)
      fields entries)
    (hothers : List.Forall₂ (fun other entry => other.name = entry.1 ∧
      tree.Fills (Table.insert members field.name value) other entry.2) fields others) :
    others = entries := by
  induction h generalizing others with
  | nil => exact List.forall₂_nil_left_iff.mp hothers
  | @cons first entry fields entries hfirst _ ih =>
    obtain ⟨other, others, ⟨hname, hfills⟩, hrest, rfl⟩ := List.forall₂_cons_left_iff.mp hothers
    rw [List.map_cons, List.mem_cons, not_or] at hnames
    have hvalue : other.2 = entry.2 := ((fills_insert_iff hnames.1).mp hfills).unique hfirst.2
    have hentry : other = entry := Prod.ext (hname.symm.trans hfirst.1) hvalue
    rw [hentry, ih hnames.2 hrest]

/-- Of fields with distinct names, one that is left out has its default among the entries, and the
entries become those with the field given by writing the checked value over the default. -/
theorem insert_entries_of_filled {fields : List Property} {entries others : List (String × Json)}
    (hdistinct : (fields.map (·.name)).Nodup) (hfield : field ∈ fields)
    (habsent : Table.get? members field.name = none)
    (h : List.Forall₂ (fun field entry => field.name = entry.1 ∧ tree.Fills members field entry.2)
      fields entries)
    (hothers : List.Forall₂ (fun other entry => other.name = entry.1 ∧
      tree.Fills (Table.insert members field.name value) other entry.2) fields others) :
    (∃ default, field.default = some default ∧ Table.get? entries field.name = some default) ∧
      ∃ checked, tree.check field.kind value = .ok checked ∧
        others = Table.insert entries field.name checked := by
  induction h generalizing others with
  | nil => cases hfield
  | @cons first entry fields entries hfirst hentries ih =>
    obtain ⟨other, others, ⟨hname, hfills⟩, hrest, rfl⟩ := List.forall₂_cons_left_iff.mp hothers
    obtain ⟨hnew, hdistinct⟩ := List.nodup_cons.mp hdistinct
    obtain ⟨key, old⟩ := entry
    obtain ⟨key', checked⟩ := other
    obtain ⟨rfl, hold⟩ := hfirst
    obtain rfl : first.name = key' := hname
    rcases List.mem_cons.mp hfield with rfl | hfield
    · have hdefault := (fills_absent_iff habsent).mp hold
      have hchecked := fills_insert_self_iff.mp hfills
      rw [entries_eq_of_filled hnew hentries hrest]
      exact ⟨⟨old, hdefault, by simp [Table.get?_cons]⟩, checked, hchecked, by simp [Table.insert]⟩
    · have hne : first.name ≠ field.name := by
        intro heq
        exact hnew (List.mem_map.mpr ⟨field, hfield, heq.symm⟩)
      obtain rfl : checked = old := ((fills_insert_iff hne.symm).mp hfills).unique hold
      obtain ⟨⟨default, hdefault, hget⟩, result, hresult, rfl⟩ := ih hdistinct hfield hrest
      refine ⟨⟨default, hdefault, ?_⟩, result, hresult, ?_⟩
      · rwa [Table.get?_cons, if_neg hne]
      · rw [Table.insert, if_neg hne]

/-- The keys of an object with one more member are known if the others are and the new one is. -/
theorem known_insert_iff {definition : TypeDefinition} (hfield : field ∈ definition.fields) :
    (∀ key ∈ Table.keys (Table.insert members field.name value),
        ∃ other ∈ definition.fields, other.name = key) ↔
      ∀ key ∈ Table.keys members, ∃ other ∈ definition.fields, other.name = key := by
  rw [Table.keys_insert]
  split
  · rfl
  · simp only [List.mem_append, List.mem_singleton, or_imp, forall_and, forall_eq,
      and_iff_left_iff_imp]
    exact fun _ => ⟨field, hfield, rfl⟩

/-- An object can be checked without a field exactly if it can be checked with the default of the
field given, where this default fits. -/
theorem exists_checkObject_insert_iff {definition : TypeDefinition}
    (hdistinct : definition.HasDistinctFields) (hfield : field ∈ definition.fields)
    (hdefault : field.default = some default) (habsent : Table.get? members field.name = none)
    (hfits : ∃ checked, tree.check field.kind default = .ok checked) :
    (∃ data, tree.checkObject definition (.obj members) = .ok data) ↔
      ∃ data, tree.checkObject definition
        (.obj (Table.insert members field.name default)) = .ok data := by
  have hfills : ∀ other ∈ definition.fields, (∃ checked, tree.Fills members other checked) ↔
      ∃ checked, tree.Fills (Table.insert members field.name default) other checked := by
    intro other hother
    by_cases hname : field.name = other.name
    · obtain rfl := List.inj_on_of_nodup_map hdistinct hfield hother hname
      simp only [fills_absent_iff habsent, fills_insert_self_iff, hdefault, hfits, Option.some.injEq,
        exists_eq']
    · simp only [fills_insert_iff hname]
  rw [exists_checkObject_iff, exists_checkObject_iff]
  simp only [Json.obj.injEq, exists_eq_left', known_insert_iff hfield]
  exact and_congr_right fun _ => forall₂_congr hfills

/-- The data of an object with the default of a field given are those without it, with the checked
default written over the default. -/
theorem insert_data_of_checkObject {definition : TypeDefinition} {data others : Table Json}
    (hdistinct : definition.HasDistinctFields) (hfield : field ∈ definition.fields)
    (hdefault : field.default = some default) (habsent : Table.get? members field.name = none)
    (hdata : tree.checkObject definition (.obj members) = .ok data)
    (hothers : tree.checkObject definition (.obj (Table.insert members field.name default)) =
      .ok others) :
    ∃ checked, tree.check field.kind default = .ok checked ∧
      Table.get? data field.name = some default ∧
      others = Table.insert data field.name checked := by
  obtain ⟨_, entries, ⟨⟩, -, hentries, rfl⟩ := checkObject_eq_ok_iff.mp hdata
  obtain ⟨_, filled, ⟨⟩, -, hfilled, rfl⟩ := checkObject_eq_ok_iff.mp hothers
  have hkeys : (Table.keys entries).Nodup := keys_of_filled hentries ▸ hdistinct
  have hkeysFilled : (Table.keys filled).Nodup := keys_of_filled hfilled ▸ hdistinct
  rw [Table.ofList_of_nodup hkeys, Table.ofList_of_nodup hkeysFilled]
  obtain ⟨⟨found, hfound, hget⟩, checked, hchecked, rfl⟩ :=
    insert_entries_of_filled hdistinct hfield habsent hentries hfilled
  obtain rfl : default = found := Option.some.inj (hdefault.symm.trans hfound)
  exact ⟨checked, hchecked, hget, rfl⟩

/-- Leaving a root field with a default out of an instance and giving it this default come to the
same success of the assembly, and the documents differ at most in the field: left out, it has its
default, and given, what the check makes of the default. The check changes no default whose kind
mentions no type. -/
theorem assemble_insert_default_iff {catalog : Catalog} {registry : Registry} {root : String}
    (h : catalog.introspect registry root = .ok tree) (hfield : field ∈ tree.root.fields)
    (hdefault : field.default = some default) (habsent : Table.get? members field.name = none)
    (context : Scope) (type : String) :
    ((∃ document, tree.assemble context type (some (.obj members)) = .ok document) ↔
        ∃ document, tree.assemble context type
          (some (.obj (Table.insert members field.name default))) = .ok document) ∧
      ∀ omitted given, tree.assemble context type (some (.obj members)) = .ok omitted →
        tree.assemble context type
          (some (.obj (Table.insert members field.name default))) = .ok given →
        ∃ checked, tree.check field.kind default = .ok checked ∧
          Table.get? omitted.data field.name = some default ∧
          given = { omitted with data := Table.insert omitted.data field.name checked } ∧
          (given.data = omitted.data ↔ checked = default) ∧
          ((∀ target, ¬ field.kind.Mentions target) → checked = default) := by
  have hclosed := (mirrors_of_introspect h).isClosed
  have hdistinct := hclosed.distinct tree.root (.inl rfl)
  simp only [assemble_eq_ok_iff, instanceData, Outcome.mapError_eq_ok_iff]
  refine ⟨?_, ?_⟩
  · have hsuccess : tree.checkAllDefaults (tree.root :: tree.nested.values) = .ok () →
        ((∃ data, tree.checkObject tree.root (.obj members) = .ok data) ↔
          ∃ data, tree.checkObject tree.root
            (.obj (Table.insert members field.name default)) = .ok data) := by
      intro hdefaults
      have hfits := defaults_pass_iff.mp hdefaults tree.root (.inl rfl) field hfield default hdefault
      exact exists_checkObject_insert_iff hdistinct hfield hdefault habsent hfits
    constructor
    · rintro ⟨_, hdefaults, data, hdata, -⟩
      obtain ⟨others, hothers⟩ := (hsuccess hdefaults).mp ⟨data, hdata⟩
      exact ⟨_, hdefaults, others, hothers, rfl⟩
    · rintro ⟨_, hdefaults, others, hothers, -⟩
      obtain ⟨data, hdata⟩ := (hsuccess hdefaults).mpr ⟨others, hothers⟩
      exact ⟨_, hdefaults, data, hdata, rfl⟩
  · rintro omitted given ⟨-, data, hdata, rfl⟩ ⟨-, others, hothers, rfl⟩
    obtain ⟨checked, hchecked, hget, rfl⟩ :=
      insert_data_of_checkObject hdistinct hfield hdefault habsent hdata hothers
    exact ⟨checked, hchecked, hget, rfl, Table.insert_eq_self_iff hget,
      fun hkind => eq_of_check hkind hchecked⟩

/-- A run with settings that may be left out and have a field that may be left out. -/
def configuredRuns : Catalog :=
  .ofModels [
    { name := "Run", fields := [
      { name := "settings", kind := .reference "Settings", default := some (.obj []) }] },
    { name := "Settings", fields := [
      { name := "depth", kind := .scalar .integer, default := some (.num (.int 1)) }] }]

/-- The settings of a run as the schema shows them. -/
def settingsProperty : Property where
  name := "settings"
  required := false
  default := some (.obj [])
  kind := .reference "Settings"

/-- A run may give its settings or leave them out, and the data differ in the settings at most. -/
theorem assemble_insert_default_iff_configuredRuns :
    ∃ tree, configuredRuns.introspect ∅ "Run" = .ok tree ∧ settingsProperty ∈ tree.root.fields ∧
      ((∃ document, tree.assemble [] "Run" (some (.obj [])) = .ok document) ↔
        ∃ document, tree.assemble [] "Run"
          (some (.obj (Table.insert [] "settings" (.obj [])))) = .ok document) ∧
      ∀ omitted given, tree.assemble [] "Run" (some (.obj [])) = .ok omitted →
        tree.assemble [] "Run"
          (some (.obj (Table.insert [] "settings" (.obj [])))) = .ok given →
        ∃ checked, tree.check (.reference "Settings") (.obj []) = .ok checked ∧
          Table.get? omitted.data "settings" = some (.obj []) ∧
          given = { omitted with data := Table.insert omitted.data "settings" checked } ∧
          (given.data = omitted.data ↔ checked = .obj []) ∧
          ((∀ target, ¬ (Kind.reference "Settings").Mentions target) → checked = .obj []) := by
  have hok : (configuredRuns.introspect ∅ "Run").isOk = true := by cbv
  obtain ⟨tree, h⟩ := Outcome.exists_of_isOk hok
  have hfield : settingsProperty ∈ tree.root.fields := by
    have hroot : (configuredRuns.introspect ∅ "Run").toOption.map (·.root.fields) =
        some [settingsProperty] := by cbv
    rw [h] at hroot
    simp only [Except.toOption, Option.map_some, Option.some.injEq] at hroot
    rw [hroot]
    exact List.mem_singleton_self settingsProperty
  exact ⟨tree, h, hfield, assemble_insert_default_iff h hfield rfl rfl [] "Run"⟩

/-- Settings that are left out stay without a depth, and settings that are given have one. -/
theorem default_left_incomplete :
    ¬ ∀ (catalog : Catalog) (registry : Registry) (root : String) (tree : SchemaTree)
      (members : List (String × Json)) (field : Property) (default : Json) (context : Scope)
      (type : String), catalog.introspect registry root = .ok tree → field ∈ tree.root.fields →
      field.default = some default → Table.get? members field.name = none →
      ((∃ document, tree.assemble context type (some (.obj members)) = .ok document) ↔
        ∃ document, tree.assemble context type
          (some (.obj (Table.insert members field.name default))) = .ok document) ∧
      ∀ omitted given, tree.assemble context type (some (.obj members)) = .ok omitted →
        tree.assemble context type
          (some (.obj (Table.insert members field.name default))) = .ok given →
        given.data = omitted.data := by
  intro hclaim
  obtain ⟨-, hdata⟩ := hclaim configuredRuns ∅ "Run" _ [] settingsProperty (.obj []) [] "Run"
    (by cbv) (by simp [settingsProperty]) rfl rfl
  have hequal := hdata _ _ (by cbv) (by cbv)
  cases hequal

end SchemaTree

end LinkedSchema
