import LinkedSchema.Document
import LinkedSchema.Proofs.Conformity.Check
import LinkedSchema.Proofs.Conformity.Closed
import Mathlib

/-!
# Checks and schemas agree

The check of a value and the schemas of a document read the kinds of a tree independently of each
other. On a closed tree they admit the same values. The proof is by induction on the value, and for
one value by induction on the kind: a reference to a type leads from a value to its members, which
are smaller, and every other kind leads to the kinds inside it.
-/

namespace LinkedSchema

/-- The members at the top level of a document that are the schema of its data. -/
def Document.schema (document : Document) : Json :=
  .obj ([StructuralKey.properties, .required, .title, .type].map fun key =>
    (key.name, document.structural key))

namespace SchemaTree

variable {tree : SchemaTree} {definition : TypeDefinition} {value : Json}

/-- The check takes a value for a kind exactly if the value is valid against the schema of the
kind. -/
def Agrees (tree : SchemaTree) (kind : Kind) (value : Json) : Prop :=
  (∃ checked, tree.check kind value = .ok checked) ↔ Valid tree.definitions kind.schema value

/-- A kind whose types are defined has its kinds inside defined. -/
theorem Defines.of_mentions {kind part : Kind} (h : tree.Defines kind)
    (hpart : ∀ target, part.Mentions target → kind.Mentions target) : tree.Defines part :=
  fun target htarget => h target (hpart target htarget)

/-- Two fields of one name in a definition of a closed tree are the same. -/
theorem IsClosed.eq_of_name_eq (h : tree.IsClosed) (hdefinition : tree.Holds definition)
    {field other : Property} (hfield : field ∈ definition.fields)
    (hother : other ∈ definition.fields) (hname : field.name = other.name) : field = other :=
  List.inj_on_of_nodup_map (h.distinct definition hdefinition) hfield hother hname

/-- What is found in an object is smaller than the object. -/
theorem size_lt_of_get? {members : List (String × Json)} {key : String} {inner : Json}
    (h : Table.get? members key = some inner) : inner.size < (Json.obj members).size := by
  have hsize := Json.size_le_of_get? h
  simp only [Json.size]
  omega

/-- Where a field of an object agrees on the given member, the field can be filled exactly if the
member is valid or, without a member, the field is not required. -/
theorem IsClosed.exists_fills_iff (h : tree.IsClosed) (hdefinition : tree.Holds definition)
    {members : List (String × Json)} {field : Property} (hfield : field ∈ definition.fields)
    (hagrees : ∀ inner, Table.get? members field.name = some inner → tree.Agrees field.kind inner) :
    (∃ checked, tree.Fills members field checked) ↔
      (∀ inner, Table.get? members field.name = some inner →
        Valid tree.definitions field.kind.schema inner) ∧
      (field.required = true → field.name ∈ Table.keys members) := by
  unfold Fills
  cases hget : Table.get? members field.name with
  | some inner =>
    have hkey : field.name ∈ Table.keys members := Table.mem_keys_iff.mpr ⟨inner, hget⟩
    simp only [hkey, implies_true, and_true, Option.some.injEq, forall_eq']
    exact hagrees inner hget
  | none =>
    have hkey : field.name ∉ Table.keys members := Table.get?_eq_none_iff.mp hget
    have hrequired := h.required definition hdefinition field hfield
    simp only [reduceCtorEq, false_implies, implies_true, true_and, hkey, hrequired, imp_false]
    rw [← ne_eq, Option.ne_none_iff_exists']

/-- Where checks and schemas agree on all smaller values, they agree on objects of a type. -/
theorem IsClosed.checkObject_iff (h : tree.IsClosed) (hdefinition : tree.Holds definition)
    (hsmaller : ∀ inner : Json, inner.size < value.size → ∀ kind, tree.Defines kind →
      tree.Agrees kind inner) :
    (∃ data, tree.checkObject definition value = .ok data) ↔
      Valid tree.definitions definition.schema value := by
  have hfills : ∀ members, value = .obj members → ∀ field ∈ definition.fields,
      ((∃ checked, tree.Fills members field checked) ↔
        (∀ inner, Table.get? members field.name = some inner →
          Valid tree.definitions field.kind.schema inner) ∧
        (field.required = true → field.name ∈ Table.keys members)) := by
    rintro members rfl field hfield
    refine h.exists_fills_iff hdefinition hfield ?_
    intro inner hinner
    have hdefines : tree.Defines field.kind := h.defined definition hdefinition field hfield
    exact hsmaller inner (size_lt_of_get? hinner) field.kind hdefines
  rw [exists_checkObject_iff, TypeDefinition.valid_iff (h.distinct definition hdefinition)]
  constructor
  · rintro ⟨members, hvalue, hknown, hfilled⟩
    refine ⟨members, hvalue, ?_, ?_⟩
    · intro key inner hinner
      obtain ⟨field, hfield, rfl⟩ := hknown key (Table.mem_keys_iff.mpr ⟨inner, hinner⟩)
      have hvalid := ((hfills members hvalue field hfield).mp (hfilled field hfield)).1
      exact ⟨field, hfield, rfl, hvalid inner hinner⟩
    · intro field hfield
      exact ((hfills members hvalue field hfield).mp (hfilled field hfield)).2
  · rintro ⟨members, hvalue, hvalid, hpresent⟩
    refine ⟨members, hvalue, ?_, ?_⟩
    · intro key hkey
      obtain ⟨inner, hinner⟩ := Table.mem_keys_iff.mp hkey
      obtain ⟨field, hfield, hname, -⟩ := hvalid key inner hinner
      exact ⟨field, hfield, hname⟩
    · intro field hfield
      refine (hfills members hvalue field hfield).mpr ⟨?_, hpresent field hfield⟩
      intro inner hinner
      obtain ⟨other, hother, hname, hvalidInner⟩ := hvalid field.name inner hinner
      obtain rfl := h.eq_of_name_eq hdefinition hother hfield hname
      exact hvalidInner

/-- Checks and schemas agree on scalars. -/
theorem agrees_scalar (type : ScalarType) (value : Json) : tree.Agrees (.scalar type) value :=
  passes_scalar_iff.trans Kind.valid_scalar_iff.symm

/-- They agree on enumerations. -/
theorem agrees_enumeration (literals : List Json) (value : Json) :
    tree.Agrees (.enumeration literals) value :=
  passes_enumeration_iff.trans Kind.valid_enumeration_iff.symm

/-- References agree where objects of the type do. -/
theorem agrees_reference {name : String} {nested : TypeDefinition}
    (hnested : tree.nested.get? name = some nested)
    (hobject : (∃ data, tree.checkObject nested value = .ok data) ↔
      Valid tree.definitions nested.schema value) : tree.Agrees (.reference name) value := by
  have hget : tree.get? name = some nested := by rw [SchemaTree.get?, hnested]
  refine passes_reference_iff.trans ?_
  rw [Kind.valid_reference_iff, get?_definitions, hnested]
  simp only [hget, Option.map_some, Option.some.injEq, exists_eq_left', hobject]

/-- Collections agree where their items do on each item of an array. -/
theorem agrees_collection {item : Kind}
    (hitems : ∀ items, value = .arr items → ∀ inner ∈ items, tree.Agrees item inner) :
    tree.Agrees (.collection item) value := by
  refine passes_collection_iff.trans ?_
  rw [Kind.valid_collection_iff]
  refine exists_congr fun items => and_congr_right fun hvalue => ?_
  exact forall₂_congr fun inner hinner => hitems items hvalue inner hinner

/-- Unions agree where all members do. -/
theorem agrees_union {members : List Kind} (h : ∀ kind ∈ members, tree.Agrees kind value) :
    tree.Agrees (.union members) value := by
  refine passes_union_iff.trans ?_
  rw [Kind.valid_union_iff]
  exact exists_congr fun kind => and_congr_right fun hkind => h kind hkind

/-- Nullable variants agree where the kind inside does. -/
theorem agrees_nullable {inner : Kind} (h : tree.Agrees inner value) :
    tree.Agrees (.nullable inner) value := by
  refine passes_nullable_iff.trans ?_
  rw [Kind.valid_nullable_iff]
  exact or_congr_right h

/-- On a closed tree checks and schemas agree on every value, for every kind whose types are
defined. -/
theorem IsClosed.agrees (h : tree.IsClosed) {kind : Kind} (hkind : tree.Defines kind)
    (value : Json) : tree.Agrees kind value := by
  induction hsize : value.size using Nat.strongRecOn generalizing kind value with
  | ind size ihvalue =>
    subst hsize
    -- Only a reference and a collection go on to smaller values; the other kinds keep the value.
    induction kind using Kind.induction with
    | scalar type => exact agrees_scalar type value
    | enumeration literals => exact agrees_enumeration literals value
    | reference name =>
      obtain ⟨nested, hnested⟩ := hkind name .reference
      refine agrees_reference hnested (h.checkObject_iff (.inr ⟨name, hnested⟩) ?_)
      intro inner hsmaller kind hdefines
      exact ihvalue inner.size hsmaller hdefines inner rfl
    | collection item ih =>
      have hitem := hkind.of_mentions fun target htarget => .collection htarget
      apply agrees_collection
      rintro items rfl inner hinner
      have hsmaller := Json.size_le_of_mem hinner
      exact ihvalue inner.size (by simp only [Json.size]; omega) hitem inner rfl
    | union members ih =>
      apply agrees_union
      intro kind hmem
      exact ih kind hmem (hkind.of_mentions fun target htarget => .union hmem htarget)
    | nullable inner ih =>
      apply agrees_nullable
      exact ih (hkind.of_mentions fun target htarget => .nullable htarget)

/-- A kind that occurs in a closed tree has its types defined. -/
theorem IsClosed.defines (h : tree.IsClosed) {kind : Kind} (hkind : tree.HasKind kind) :
    tree.Defines kind := by
  obtain ⟨definition, hdefinition, field, hfield, hpart⟩ := hkind
  exact fun target htarget =>
    h.defined definition hdefinition field hfield target (hpart.mentions htarget)

/-- A document is assembled where all defaults and the instance pass their checks, and it shows
the tree beside the data that the check gives. -/
theorem assemble_eq_ok_iff {context : Scope} {type : String} {instance? : Option Json}
    {document : Document} :
    tree.assemble context type instance? = .ok document ↔
      tree.checkAllDefaults (tree.root :: tree.nested.values) = .ok () ∧
        ∃ data, tree.instanceData instance? = .ok data ∧
          document = {
            context, type, data
            definitions := tree.definitions
            properties := tree.root.properties
            required := tree.root.required
            title := tree.root.name } := by
  constructor
  · intro h
    obtain ⟨⟨⟩, hdefaults, h⟩ := Outcome.bind_eq_ok_iff.mp h
    obtain ⟨data, hdata, h⟩ := Outcome.bind_eq_ok_iff.mp h
    cases h
    exact ⟨hdefaults, data, hdata, rfl⟩
  · rintro ⟨hdefaults, data, hdata, rfl⟩
    refine Outcome.bind_eq_ok_iff.mpr ⟨(), hdefaults, ?_⟩
    exact Outcome.bind_eq_ok_iff.mpr ⟨data, hdata, rfl⟩

/-- A document has the schemas of its tree. -/
theorem schema_of_assemble {context : Scope} {type : String} {instance? : Option Json}
    {document : Document} (h : tree.assemble context type instance? = .ok document) :
    document.definitions = tree.definitions ∧ document.schema = tree.root.schema := by
  obtain ⟨-, data, -, rfl⟩ := assemble_eq_ok_iff.mp h
  exact ⟨rfl, rfl⟩

/-- On the tree of an introspection a value passes the check for a kind exactly if it is valid
against the schema of the kind, and an instance of the root exactly if it is valid against the
schema that every document of the tree has at its top level. -/
theorem check_iff_valid {catalog : Catalog} {registry : Registry} {root : String}
    (h : catalog.introspect registry root = .ok tree) :
    (∀ kind, tree.HasKind kind → ∀ value,
        (∃ checked, tree.check kind value = .ok checked) ↔
          Valid tree.definitions kind.schema value) ∧
      (∀ value, (∃ data, tree.checkObject tree.root value = .ok data) ↔
        Valid tree.definitions tree.root.schema value) ∧
      ∀ context type instance? document, tree.assemble context type instance? = .ok document →
        document.definitions = tree.definitions ∧ document.schema = tree.root.schema := by
  have hclosed := (mirrors_of_introspect h).isClosed
  refine ⟨?_, ?_, ?_⟩
  · intro kind hkind value
    exact hclosed.agrees (hclosed.defines hkind) value
  · intro value
    exact hclosed.checkObject_iff (.inl rfl) fun inner _ kind hkind => hclosed.agrees hkind inner
  · intro context type instance? document hdocument
    exact schema_of_assemble hdocument

/-- A task has a name, an effort with a default, and parts that are tasks. -/
def plannedTasks : Catalog :=
  .ofModels [
    { name := "Task", fields := [
      { name := "name", kind := .scalar .string },
      { name := "effort", kind := .scalar .integer, default := some (.num (.int 1)) },
      { name := "parts", kind := .collection (.reference "Task"), default := some (.arr []) }] }]

/-- Checks and schemas agree for tasks with tasks as parts. -/
theorem check_iff_valid_plannedTasks :
    ∃ tree, plannedTasks.introspect ∅ "Task" = .ok tree ∧
      (∀ kind, tree.HasKind kind → ∀ value,
        (∃ checked, tree.check kind value = .ok checked) ↔
          Valid tree.definitions kind.schema value) ∧
      (∀ value, (∃ data, tree.checkObject tree.root value = .ok data) ↔
        Valid tree.definitions tree.root.schema value) ∧
      ∀ context type instance? document, tree.assemble context type instance? = .ok document →
        document.definitions = tree.definitions ∧ document.schema = tree.root.schema := by
  have hok : (plannedTasks.introspect ∅ "Task").isOk = true := by cbv
  obtain ⟨tree, h⟩ := Outcome.exists_of_isOk hok
  exact ⟨tree, h, check_iff_valid h⟩

end SchemaTree

end LinkedSchema
