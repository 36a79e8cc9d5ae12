import LinkedSchema.Json.Pointer
import LinkedSchema.Proofs.Document.Omission

/-!
# Data extend the instance

What the check makes of a value is the value itself with fields added. Scalars and literals are as
they were, arrays keep their length and order, and an object of a type has exactly the fields of the
type, in the order of declaration: those that were given with their values extended, and the others
with their defaults as they stand. Nothing else extends a value than what the check makes of it. And
whatever stood at some place of an instance without parts of its own stands at the same place of the
data.
-/

namespace LinkedSchema

namespace SchemaTree

mutual

/-- A value that passes for a kind is extended to another value. Of a union the first member for
which the value passes says how. -/
inductive Extends (tree : SchemaTree) : Kind → Json → Json → Prop
  | scalar {type : ScalarType} {value : Json} : type.accepts value = true →
    Extends tree (.scalar type) value value
  | enumeration {literals : List Json} {value : Json} : literals.any (·.equal value) = true →
    Extends tree (.enumeration literals) value value
  | reference {name : String} {definition : TypeDefinition} {members data : Table Json} :
    tree.get? name = some definition → ExtendsObject tree definition members data →
    Extends tree (.reference name) (.obj members) (.obj data)
  | collection {item : Kind} {items results : List Json} : items.length = results.length →
    (∀ pair ∈ items.zip results, Extends tree item pair.1 pair.2) →
    Extends tree (.collection item) (.arr items) (.arr results)
  | union {members before after : List Kind} {kind : Kind} {value result : Json} :
    members = before ++ kind :: after → (∀ earlier ∈ before, ¬ tree.Passes earlier value) →
    tree.Passes kind value → Extends tree kind value result →
    Extends tree (.union members) value result
  | null {inner : Kind} : Extends tree (.nullable inner) .null .null
  | nullable {inner : Kind} {value result : Json} : value ≠ .null →
    Extends tree inner value result → Extends tree (.nullable inner) value result

/-- The members of an object of a type are extended to the fields of the type. -/
inductive ExtendsObject (tree : SchemaTree) : TypeDefinition → Table Json → Table Json → Prop
  | intro {definition : TypeDefinition} {members data : Table Json} :
    Table.keys data = definition.fields.map (·.name) → (Table.keys data).Nodup →
    (∀ key ∈ Table.keys members, key ∈ Table.keys data) →
    (∀ field ∈ definition.fields, ∀ given result, Table.get? members field.name = some given →
      Table.get? data field.name = some result → Extends tree field.kind given result) →
    (∀ field ∈ definition.fields, Table.get? members field.name = none →
      field.default ≠ none ∧ Table.get? data field.name = field.default) →
    ExtendsObject tree definition members data

end

variable {tree : SchemaTree} {definition : TypeDefinition} {kind : Kind} {value checked : Json}

/-- Where the check extends all smaller values, it extends the objects of a type. -/
theorem IsClosed.extends_of_checkObject (h : tree.IsClosed) (hdefinition : tree.Holds definition)
    (hsmaller : ∀ inner : Json, inner.size < value.size → ∀ kind checked,
      tree.check kind inner = .ok checked → tree.Extends kind inner checked)
    {data : Table Json} (hdata : tree.checkObject definition value = .ok data) :
    ∃ members, value = .obj members ∧ tree.ExtendsObject definition members data := by
  obtain ⟨members, entries, rfl, hknown, hentries, rfl⟩ := checkObject_eq_ok_iff.mp hdata
  have hkeys := keys_of_filled hentries
  have hnodup : (Table.keys entries).Nodup := hkeys ▸ h.distinct definition hdefinition
  rw [Table.ofList_of_nodup hnodup]
  -- As the names of the fields are distinct, the entry of a field is what it was filled with.
  have hfilled : ∀ field ∈ definition.fields, ∃ result,
      Table.get? entries field.name = some result ∧ tree.Fills members field result := by
    intro field hfield
    obtain ⟨⟨name, result⟩, hentry, rfl, hfills⟩ :=
      exists_mem_of_forall₂ (List.Forall₂.flip hentries) hfield
    exact ⟨result, Table.get?_of_mem hnodup hentry, hfills⟩
  refine ⟨members, rfl, .intro hkeys hnodup ?_ ?_ ?_⟩
  · intro key hkey
    obtain ⟨field, hfield, rfl⟩ := hknown key hkey
    rw [hkeys]
    exact List.mem_map_of_mem hfield
  · intro field hfield given result hgiven hresult
    obtain ⟨found, hfound, hfills⟩ := hfilled field hfield
    obtain rfl : found = result := Option.some.inj (hfound.symm.trans hresult)
    rw [Fills, hgiven] at hfills
    exact hsmaller given (size_lt_of_get? hgiven) field.kind found hfills
  · intro field hfield habsent
    obtain ⟨found, hfound, hfills⟩ := hfilled field hfield
    rw [fills_absent_iff habsent] at hfills
    exact ⟨by simp [hfills], by rw [hfound, hfills]⟩

/-- On a closed tree the check extends the value. -/
theorem IsClosed.extends_of_check (h : tree.IsClosed)
    (hchecked : tree.check kind value = .ok checked) : tree.Extends kind value checked := by
  induction hsize : value.size using Nat.strongRecOn generalizing kind value checked with
  | ind size ihvalue =>
    subst hsize
    induction kind using Kind.induction with
    | scalar type =>
      obtain ⟨haccepts, rfl⟩ := check_scalar_iff.mp hchecked
      exact .scalar haccepts
    | enumeration literals =>
      obtain ⟨hliteral, rfl⟩ := check_enumeration_iff.mp hchecked
      exact .enumeration hliteral
    | reference name =>
      obtain ⟨definition, hget, -⟩ := passes_reference_iff.mp ⟨checked, hchecked⟩
      obtain ⟨data, hdata, rfl⟩ := (check_reference_iff hget).mp hchecked
      obtain ⟨members, rfl, hextends⟩ := h.extends_of_checkObject (holds_of_get? hget)
        (fun inner hsmaller kind checked hinner => ihvalue inner.size hsmaller hinner rfl) hdata
      exact .reference hget hextends
    | collection item ih =>
      obtain ⟨items, results, rfl, hresults, rfl⟩ := check_collection_iff.mp hchecked
      refine .collection hresults.length_eq ?_
      intro pair hpair
      have hsmaller := Json.size_le_of_mem (List.of_mem_zip hpair).1
      have hresult := List.forall₂_zip hresults hpair
      exact ihvalue pair.1.size (by simp only [Json.size]; omega) hresult rfl
    | union members ih =>
      obtain ⟨before, kind, after, rfl, hbefore, hfits⟩ :=
        firstFit_eq_some_iff.mp (check_union_iff.mp hchecked)
      refine .union rfl ?_ ⟨checked, hfits⟩ (ih kind (by simp) hfits)
      rintro earlier hearlier ⟨other, hother⟩
      exact hbefore earlier hearlier other hother
    | nullable inner ih =>
      rcases check_nullable_iff.mp hchecked with ⟨rfl, rfl⟩ | ⟨hvalue, hfits⟩
      · exact .null
      · exact .nullable hvalue (ih hfits)

/-- Where the check makes of smaller values what extends them, it makes of an object what extends
it. -/
theorem ExtendsObject.checkObject {members data : Table Json}
    (h : tree.ExtendsObject definition members data)
    (hsmaller : ∀ inner : Json, inner.size < (Json.obj members).size → ∀ kind checked,
      tree.Extends kind inner checked → tree.check kind inner = .ok checked) :
    tree.checkObject definition (.obj members) = .ok data := by
  obtain ⟨hkeys, hnodup, hknown, hgiven, habsent⟩ := h
  have hnames : List.Forall₂ (fun field entry => field.name = entry.1) definition.fields data := by
    have hsame : List.Forall₂ (· = ·) (definition.fields.map (·.name)) (data.map Prod.fst) := by
      rw [List.forall₂_eq_eq_eq]
      exact hkeys.symm
    rwa [List.forall₂_map_left_iff, List.forall₂_map_right_iff] at hsame
  refine checkObject_eq_ok_iff.mpr ⟨members, data, rfl, ?_, ?_, Table.ofList_of_nodup hnodup⟩
  · intro key hkey
    obtain ⟨field, hfield, rfl⟩ := List.mem_map.mp (hkeys ▸ hknown key hkey)
    exact ⟨field, hfield, rfl⟩
  · refine List.forall₂_iff_zip.mpr ⟨hnames.length_eq, ?_⟩
    rintro field ⟨name, result⟩ hpair
    obtain rfl : field.name = name := List.forall₂_zip hnames hpair
    obtain ⟨hfield, hentry⟩ := List.of_mem_zip hpair
    have hresult : Table.get? data field.name = some result := Table.get?_of_mem hnodup hentry
    refine ⟨rfl, ?_⟩
    rw [Fills]
    cases hmember : Table.get? members field.name with
    | none => exact (habsent field hfield hmember).2.symm.trans hresult
    | some given =>
      have hextends := hgiven field hfield given result hmember hresult
      exact hsmaller given (size_lt_of_get? hmember) field.kind result hextends

/-- The check makes of a value what extends it. -/
theorem check_of_extends (h : tree.Extends kind value checked) :
    tree.check kind value = .ok checked := by
  induction hsize : value.size using Nat.strongRecOn generalizing kind value checked with
  | ind size ihvalue =>
    subst hsize
    induction kind using Kind.induction with
    | scalar type =>
      cases h with
      | scalar haccepts => exact check_scalar_iff.mpr ⟨haccepts, rfl⟩
    | enumeration literals =>
      cases h with
      | enumeration hliteral => exact check_enumeration_iff.mpr ⟨hliteral, rfl⟩
    | reference name =>
      cases h with
      | reference hget hobject =>
        refine (check_reference_iff hget).mpr ⟨_, hobject.checkObject ?_, rfl⟩
        intro inner hsmaller kind checked hinner
        exact ihvalue inner.size hsmaller hinner rfl
    | collection item ih =>
      cases h with
      | @collection _ items results hlength hitems =>
        refine check_collection_iff.mpr
          ⟨items, results, rfl, List.forall₂_iff_zip.mpr ⟨hlength, ?_⟩, rfl⟩
        intro inner result hpair
        have hsmaller := Json.size_le_of_mem (List.of_mem_zip hpair).1
        exact ihvalue inner.size (by simp only [Json.size]; omega) (hitems _ hpair) rfl
    | union members ih =>
      cases h with
      | @union _ before after kind _ _ hmembers hbefore _ hextends =>
        have hfits := ih kind (by simp [hmembers]) hextends
        have hfirst : ∀ earlier ∈ before, ∀ other, tree.check earlier value ≠ .ok other :=
          fun earlier hearlier other hother => hbefore earlier hearlier ⟨other, hother⟩
        exact check_union_iff.mpr
          (firstFit_eq_some_iff.mpr ⟨before, kind, after, hmembers, hfirst, hfits⟩)
    | nullable inner ih =>
      cases h with
      | null => exact check_nullable_iff.mpr (.inl ⟨rfl, rfl⟩)
      | nullable hvalue hextends => exact check_nullable_iff.mpr (.inr ⟨hvalue, ih hextends⟩)

/-- On a closed tree a value is extended exactly to what the check makes of it. -/
theorem IsClosed.extends_iff (h : tree.IsClosed) :
    tree.Extends kind value checked ↔ tree.check kind value = .ok checked :=
  ⟨check_of_extends, h.extends_of_check⟩

/-- A value comes from another: it is the same or extends it for some kind. -/
def ComesFrom (tree : SchemaTree) (value checked : Json) : Prop :=
  checked = value ∨ ∃ kind, tree.Extends kind value checked

/-- A member of an object comes from the given member. -/
theorem ExtendsObject.get? {members data : Table Json} {key : String} {inner : Json}
    (h : tree.ExtendsObject definition members data)
    (hinner : Table.get? members key = some inner) :
    ∃ result, Table.get? data key = some result ∧ tree.ComesFrom inner result := by
  obtain ⟨hkeys, -, hknown, hgiven, -⟩ := h
  have hkey := hknown key (Table.mem_keys_iff.mpr ⟨inner, hinner⟩)
  obtain ⟨result, hresult⟩ := Table.mem_keys_iff.mp hkey
  obtain ⟨field, hfield, rfl⟩ := List.mem_map.mp (hkeys ▸ hkey)
  exact ⟨result, hresult, .inr ⟨field.kind, hgiven field hfield inner result hinner hresult⟩⟩

/-- One step leads in an extended value to what comes from the part to which it leads in the
value. -/
theorem Extends.step? {step : String} {inner : Json} (h : tree.Extends kind value checked)
    (hinner : value.step? step = some inner) :
    ∃ result, checked.step? step = some result ∧ tree.ComesFrom inner result := by
  induction kind using Kind.induction with
  | scalar type =>
    cases h
    exact ⟨inner, hinner, .inl rfl⟩
  | enumeration literals =>
    cases h
    exact ⟨inner, hinner, .inl rfl⟩
  | reference name =>
    cases h with
    | reference hget hobject => exact hobject.get? hinner
  | collection item ih =>
    cases h with
    | @collection _ items results hlength hitems =>
      obtain ⟨position, hposition, hitem⟩ := Option.bind_eq_some_iff.mp hinner
      obtain ⟨hbound, rfl⟩ := List.getElem?_eq_some_iff.mp hitem
      have hresult : results[position]? = some results[position] :=
        List.getElem?_eq_getElem (hlength ▸ hbound)
      have hpair : (items[position], results[position]) ∈ items.zip results :=
        List.mem_of_getElem? (List.getElem?_zip_eq_some.mpr ⟨hitem, hresult⟩)
      refine ⟨results[position], ?_, .inr ⟨item, hitems _ hpair⟩⟩
      rw [Json.step?, hposition, Option.bind_some, hresult]
  | union members ih =>
    cases h with
    | union hmembers _ _ hextends => exact ih _ (by simp [hmembers]) hextends
  | nullable kind ih =>
    cases h with
    | null => cases hinner
    | nullable _ hextends => exact ih hextends

/-- What stands at some place of a value has something that comes from it at the same place of the
extended value. -/
theorem ComesFrom.at? {pointer : Pointer} {part : Json} (h : tree.ComesFrom value checked)
    (hpart : value.at? pointer = some part) :
    ∃ result, checked.at? pointer = some result ∧ tree.ComesFrom part result := by
  induction pointer generalizing value checked with
  | nil =>
    obtain rfl : value = part := Option.some.inj hpart
    exact ⟨checked, rfl, h⟩
  | cons step steps ih =>
    obtain ⟨inner, hinner, hpart⟩ := Option.bind_eq_some_iff.mp hpart
    have hstep : ∃ result, checked.step? step = some result ∧ tree.ComesFrom inner result := by
      rcases h with rfl | ⟨kind, hextends⟩
      · exact ⟨inner, hinner, .inl rfl⟩
      · exact hextends.step? hinner
    obtain ⟨result, hresult, hcomes⟩ := hstep
    obtain ⟨found, hfound, hcomes⟩ := ih hcomes hpart
    refine ⟨found, ?_, hcomes⟩
    rw [Json.at?, hresult, Option.bind_some, hfound]

/-- A value without parts is extended by itself alone. -/
theorem Extends.eq_of_shape (h : tree.Extends kind value checked) (harray : value.shape ≠ .array)
    (hobject : value.shape ≠ .object) : checked = value := by
  induction kind using Kind.induction with
  | scalar type => cases h; rfl
  | enumeration literals => cases h; rfl
  | reference name => cases h; exact absurd rfl hobject
  | collection item ih => cases h; exact absurd rfl harray
  | union members ih =>
    cases h with
    | union hmembers _ _ hextends => exact ih _ (by simp [hmembers]) hextends
  | nullable kind ih =>
    cases h with
    | null => rfl
    | nullable _ hextends => exact ih hextends

/-- The data of a document extend the instance: every object of a type keeps its keys with extended
values and gains the declared defaults of the absent fields and nothing else, its keys being the
names of the fields in the order of declaration. Whatever has no parts stands in the data where it
stood in the instance. -/
theorem data_extend_instance {catalog : Catalog} {registry : Registry} {root : String}
    (h : catalog.introspect registry root = .ok tree) {context : Scope} {type : String}
    {document : Document} (hdocument : tree.assemble context type (some value) = .ok document) :
    (∃ members, value = .obj members ∧ tree.ExtendsObject tree.root members document.data) ∧
      ∀ pointer part, value.at? pointer = some part → part.shape ≠ .array →
        part.shape ≠ .object → (Json.obj document.data).at? pointer = some part := by
  have hmirrors := mirrors_of_introspect h
  have hclosed := hmirrors.isClosed
  obtain ⟨-, data, hdata, rfl⟩ := assemble_eq_ok_iff.mp hdocument
  obtain ⟨members, rfl, hextends⟩ := hclosed.extends_of_checkObject (.inl rfl)
    (fun inner _ kind checked hinner => hclosed.extends_iff.mpr hinner)
    (Outcome.mapError_eq_ok_iff.mp hdata)
  refine ⟨⟨members, rfl, hextends⟩, ?_⟩
  intro pointer part hpart harray hobject
  have hcomes : tree.ComesFrom (.obj members) (.obj data) :=
    .inr ⟨_, .reference hmirrors.get?_root hextends⟩
  obtain ⟨result, hresult, rfl | ⟨kind, hkind⟩⟩ := hcomes.at? hpart
  · exact hresult
  · rwa [hkind.eq_of_shape harray hobject] at hresult

/-- Tasks that belong to somebody who is named or to a team. -/
def teamTasks : Catalog :=
  .ofModels [
    { name := "Task", fields := [
      { name := "owner", kind := .union [.scalar .string, .reference "Team"] },
      { name := "effort", kind := .scalar .integer, default := some (.num (.int 1)) }] },
    { name := "Team", fields := [
      { name := "name", kind := .scalar .string },
      { name := "size", kind := .scalar .integer, default := some (.num (.int 2)) }] }]

/-- A team of the usual size. -/
def pressTeam : Json :=
  .obj [("name", .str "press")]

/-- A task of the team. -/
def teamTask : Json :=
  .obj [("owner", pressTeam)]

/-- The team passes for the second member of the union only. There its size is filled in, so it is
not extended to itself. -/
theorem data_extend_instance_teamTask :
    ∃ tree document, teamTasks.introspect ∅ "Task" = .ok tree ∧
      tree.assemble [] "Task" (some teamTask) = .ok document ∧
      (∃ members, teamTask = .obj members ∧
        tree.ExtendsObject tree.root members document.data) ∧
      (Json.obj document.data).at? ["owner", "name"] = some (.str "press") ∧
      (Json.obj document.data).at? ["owner", "size"] = some (.num (.int 2)) ∧
      ¬ tree.Extends (.union [.scalar .string, .reference "Team"]) pressTeam pressTeam := by
  have hfilled : ∃ tree document filled, teamTasks.introspect ∅ "Task" = .ok tree ∧
      tree.assemble [] "Task" (some teamTask) = .ok document ∧
      (Json.obj document.data).at? ["owner", "size"] = some (.num (.int 2)) ∧
      tree.check (.union [.scalar .string, .reference "Team"]) pressTeam = .ok filled ∧
      filled ≠ pressTeam :=
    ⟨_, _, _, by cbv, by cbv, by cbv, by cbv, by decide⟩
  have hname : teamTask.at? ["owner", "name"] = some (.str "press") := by cbv
  obtain ⟨tree, document, filled, h, hdocument, hsize, hchecked, hne⟩ := hfilled
  obtain ⟨hextends, hplaces⟩ := data_extend_instance h hdocument
  refine ⟨tree, document, h, hdocument, hextends, hplaces _ _ hname (by decide) (by decide),
    hsize, ?_⟩
  intro hself
  exact hne (Except.ok.inj (hchecked.symm.trans (check_of_extends hself)))

end SchemaTree

end LinkedSchema
