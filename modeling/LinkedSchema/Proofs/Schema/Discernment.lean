import LinkedSchema.Kind.Wire
import LinkedSchema.Proofs.Conformity.Closed
import LinkedSchema.Proofs.Kind.NormalForm
import LinkedSchema.Proofs.Outcome
import Mathlib

/-!
# Schemas tell kinds apart

A nullable has the schema of the union with null that it stands for, and nothing else is lost in a
schema: two kinds have equal schemas exactly if they are equal once every nullable in them is
spelled out as such a union. Equal schemas belong to kinds of one form, since each form has keys of
its own, and within a form the contents of the schemas are compared as the contents of the kinds
are. The kinds of an introspected tree are normal and have no nullable, so there the schema
determines the kind.
-/

namespace LinkedSchema

namespace Kind

mutual

/-- The kind with every nullable in it, at any depth, written as a union with null. -/
def spelledOut : Kind → Kind
  | .scalar type => .scalar type
  | .enumeration literals => .enumeration literals
  | .reference name => .reference name
  | .collection item => .collection (spelledOut item)
  | .union members => .union (spelledOutMembers members)
  | .nullable inner => .union [spelledOut inner, .null]

/-- The members of a union with every nullable in them written as a union with null. -/
def spelledOutMembers : List Kind → List Kind
  | [] => []
  | kind :: kinds => spelledOut kind :: spelledOutMembers kinds

end

variable {kind other part : Kind} {members : List Kind}

/-- The members of a union are spelled out one by one. -/
theorem spelledOutMembers_eq_map (members : List Kind) :
    spelledOutMembers members = members.map spelledOut := by
  induction members with
  | nil => rfl
  | cons kind kinds ih => rw [spelledOutMembers, ih, List.map_cons]

/-- Whether two kinds are equal, once they are spelled out, shows in their schemas. -/
def Discerned (kind other : Kind) : Prop :=
  kind.schema.equal other.schema = true ↔ kind.spelledOut.equal other.spelledOut = true

section Forms

/-- The form of a kind once it is spelled out. -/
def form : Kind → Form
  | .scalar _ => .scalar
  | .enumeration _ => .enumeration
  | .reference _ => .reference
  | .collection _ => .collection
  | .union _ => .union
  | .nullable _ => .union

/-- The schema of a scalar has a type keyword or nothing. -/
theorem schema_scalar_cases (type : ScalarType) :
    (scalar type).schema = .obj [] ∨
      ∃ keyword, (scalar type).schema = .obj [("type", .str keyword)] := by
  cases type with
  | any => exact .inl rfl
  | _ => exact .inr ⟨_, rfl⟩

/-- Equal schemas are those of kinds of one form. -/
theorem form_eq_of_equal_schema (h : kind.schema.equal other.schema = true) :
    kind.form = other.form := by
  by_contra hform
  -- Objects of different keys are not equal, and each form has keys of its own. A scalar shares its
  -- key with a collection, which has one more, and the scalar of all values has no key.
  cases kind with
  | scalar type =>
    rcases schema_scalar_cases type with hschema | ⟨keyword, hschema⟩
    · rw [hschema] at h
      cases other <;> simp_all [schema, form, Json.equal]
    · rw [hschema] at h
      cases other <;> simp_all [schema, form, Json.equal, Json.equalMembers, Table.get?_cons]
  | _ =>
    cases other with
    | scalar type =>
      rcases schema_scalar_cases type with hschema | ⟨keyword, hschema⟩
      · rw [hschema] at h
        simp_all [schema, Json.equal]
      · rw [hschema] at h
        simp_all [schema, Json.equal, Json.equalMembers, Table.get?_cons]
    | _ => simp_all [schema, form, Json.equal, Json.equalMembers, Table.get?_cons]

/-- Kinds that are equal once they are spelled out are of one form. -/
theorem form_eq_of_equal_spelledOut (h : kind.spelledOut.equal other.spelledOut = true) :
    kind.form = other.form := by
  cases kind <;> cases other <;> simp_all [spelledOut, equal, form]

/-- Kinds of different forms have different schemas. -/
theorem discerned_of_form_ne (h : kind.form ≠ other.form) : Discerned kind other :=
  iff_of_false (fun hschema => h (form_eq_of_equal_schema hschema))
    fun hkind => h (form_eq_of_equal_spelledOut hkind)

end Forms

section Contents

/-- The schema of a scalar shows of which type it is. -/
theorem discerned_scalar (type : ScalarType) (other : Kind) : Discerned (.scalar type) other := by
  cases other with
  | scalar second =>
    unfold Discerned
    cases type <;> cases second <;> decide
  | _ => exact discerned_of_form_ne (by simp [form])

/-- The schema of an enumeration shows its literals. -/
theorem discerned_enumeration (literals : List Json) (other : Kind) :
    Discerned (.enumeration literals) other := by
  cases other with
  | enumeration values =>
    simp [Discerned, schema, Json.equal, Json.equalMembers, Table.get?_cons, spelledOut, equal]
  | _ => exact discerned_of_form_ne (by simp [form])

/-- The schema of a reference shows where it leads. -/
theorem discerned_reference (name : String) (other : Kind) : Discerned (.reference name) other := by
  cases other with
  | reference second =>
    have hpointer : definitionPointer name = definitionPointer second ↔ name = second :=
      ⟨definitionPointer_injective, congrArg definitionPointer⟩
    simp [Discerned, schema, Json.equal, Json.equalMembers, Table.get?_cons, spelledOut, equal,
      hpointer]
  | _ => exact discerned_of_form_ne (by simp [form])

/-- The schemas of collections discern them if the schemas of their items do. -/
theorem discerned_collection {item : Kind} (h : ∀ other, Discerned item other) (other : Kind) :
    Discerned (.collection item) other := by
  cases other with
  | collection second =>
    have hitem := h second
    unfold Discerned at hitem ⊢
    simp [schema, Json.equal, Json.equalMembers, Table.get?_cons, spelledOut, equal, hitem]
  | _ => exact discerned_of_form_ne (by simp [form])

/-- The schemas of members are equal one by one if the members are, once they are spelled out. -/
theorem equalItems_schemaMembers_iff (h : ∀ kind ∈ members, ∀ other, Discerned kind other)
    (others : List Kind) :
    Json.equalItems (schemaMembers members) (schemaMembers others) = true ↔
      equalMembers (spelledOutMembers members) (spelledOutMembers others) = true := by
  induction members generalizing others with
  | nil => cases others <;> simp [schemaMembers, spelledOutMembers, Json.equalItems, equalMembers]
  | cons kind kinds ih =>
    obtain ⟨hkind, hkinds⟩ := List.forall_mem_cons.mp h
    cases others with
    | nil => simp [schemaMembers, spelledOutMembers, Json.equalItems, equalMembers]
    | cons other others =>
      simp only [schemaMembers, spelledOutMembers, Json.equalItems, equalMembers, Bool.and_eq_true]
      exact and_congr (hkind other) (ih hkinds others)

/-- The schemas of unions discern them if the schemas of their members do. -/
theorem discerned_union (h : ∀ kind ∈ members, ∀ other, Discerned kind other) (other : Kind) :
    Discerned (.union members) other := by
  have hunion : ∀ others, Discerned (.union members) (.union others) := by
    intro others
    have hmembers := equalItems_schemaMembers_iff h others
    simp [Discerned, schema, Json.equal, Json.equalMembers, Table.get?_cons, spelledOut, equal,
      hmembers]
  cases other with
  | union others => exact hunion others
  -- A nullable has the schema of the union that it is spelled out as, and so it is compared.
  | nullable inner => exact hunion [inner, .null]
  | _ => exact discerned_of_form_ne (by simp [form])

/-- The schemas of two kinds discern them. -/
theorem discerned (kind other : Kind) : Discerned kind other := by
  induction kind using Kind.induction generalizing other with
  | scalar type => exact discerned_scalar type other
  | enumeration literals => exact discerned_enumeration literals other
  | reference name => exact discerned_reference name other
  | collection item ih => exact discerned_collection ih other
  | union members ih => exact discerned_union ih other
  | nullable inner ih =>
    have hmembers : ∀ kind ∈ [inner, .null], ∀ other, Discerned kind other := by
      simpa using ⟨ih, discerned_scalar .null⟩
    exact discerned_union hmembers other

end Contents

/-- What stands in a normal kind is normal. -/
theorem IsNormal.of_isPart (h : kind.IsNormal) (hpart : part.IsPart kind) : part.IsNormal := by
  induction hpart with
  | self => exact h
  | collection _ ih =>
    cases h with
    | collection hitem => exact ih hitem
  | union hmem _ ih =>
    cases h with
    | union hmembers => exact ih (hmembers _ hmem)
  | nullable => cases h

/-- A normal kind has nothing to spell out. -/
theorem IsNormal.spelledOut_eq (h : kind.IsNormal) : kind.spelledOut = kind := by
  induction h with
  | scalar type => rfl
  | enumeration literals => rfl
  | reference name => rfl
  | collection _ ih => rw [spelledOut, ih]
  | @union members _ _ _ ih =>
    have hmembers : members.map spelledOut = members.map id := List.map_congr_left ih
    rw [spelledOut, spelledOutMembers_eq_map, hmembers, List.map_id]

end Kind

namespace SchemaTree

/-- The kinds of an introspected tree are normal. -/
theorem Mirrors.isNormal_of_hasKind {tree : SchemaTree} {catalog : Catalog} {registry : Registry}
    {root : String} (h : tree.Mirrors catalog registry root) {kind : Kind}
    (hkind : tree.HasKind kind) : kind.IsNormal := by
  obtain ⟨definition, hdefinition, field, hfield, hpart⟩ := hkind
  obtain ⟨-, model, -, heq⟩ := h.get?_iff.mp (h.get?_of_holds hdefinition)
  rw [heq] at hfield
  obtain ⟨declared, -, rfl⟩ := List.mem_map.mp hfield
  exact (Kind.isNormal_normalize declared.kind).of_isPart hpart

/-- The schemas of two kinds are equal as JSON values exactly if the kinds are equal once every
nullable in them, at any depth, is written as a union with null. No nullable stands at any depth in
the tree of an introspection, so of its kinds the schemas are equal exactly if the kinds are. -/
theorem schemas_discern_kinds :
    (∀ kind other : Kind, kind.schema.equal other.schema = true ↔
        kind.spelledOut.equal other.spelledOut = true) ∧
      ∀ (catalog : Catalog) (registry : Registry) (root : String) (tree : SchemaTree),
        catalog.introspect registry root = .ok tree →
        (∀ inner, ¬ tree.HasKind (.nullable inner)) ∧
        ∀ kind other, tree.HasKind kind → tree.HasKind other →
          (kind.schema.equal other.schema = true ↔ kind.equal other = true) := by
  refine ⟨Kind.discerned, ?_⟩
  intro catalog registry root tree h
  have hmirrors := mirrors_of_introspect h
  refine ⟨?_, ?_⟩
  · intro inner hinner
    cases hmirrors.isNormal_of_hasKind hinner
  · intro kind other hkind hother
    have hdiscerned := Kind.discerned kind other
    have hfirst := (hmirrors.isNormal_of_hasKind hkind).spelledOut_eq
    have hsecond := (hmirrors.isNormal_of_hasKind hother).spelledOut_eq
    rwa [Kind.Discerned, hfirst, hsecond] at hdiscerned

/-- A shift has a note and a remark, both a text or null, and perhaps a shift after it. -/
def shift : Model where
  name := "Shift"
  fields := [
    { name := "note", kind := .nullable (.scalar .string) },
    { name := "remark", kind := .union [.null, .scalar .string] },
    { name := "next", kind := .nullable (.reference "Shift") }]

/-- A nullable text has the schema of the union that spells it out, and the schema of a union tells
the order of its members. -/
theorem schemas_discern_kinds_shift :
    ∃ tree, (Catalog.ofModels [shift]).introspect ∅ "Shift" = .ok tree ∧
      tree.HasKind (.union [.scalar .string, .null]) ∧
      tree.HasKind (.union [.null, .scalar .string]) ∧
      (∀ inner, ¬ tree.HasKind (.nullable inner)) ∧
      (Kind.nullable (.scalar .string)).schema.equal
        (Kind.union [.scalar .string, .null]).schema = true ∧
      (Kind.union [.scalar .string, .null]).schema.equal
        (Kind.union [.null, .scalar .string]).schema = false := by
  have hok : ((Catalog.ofModels [shift]).introspect ∅ "Shift").isOk = true := by cbv
  obtain ⟨tree, h⟩ := Outcome.exists_of_isOk hok
  obtain ⟨hkinds, htree⟩ := schemas_discern_kinds
  obtain ⟨hnullable, hdiscerned⟩ := htree _ _ _ _ h
  obtain ⟨model, hmodel, hroot⟩ := (mirrors_of_introspect h).root_eq
  obtain rfl : shift = model := Option.some.inj hmodel
  have hnote : tree.HasKind (.union [.scalar .string, .null]) :=
    ⟨tree.root, .inl rfl, .ofDecl ∅ "Shift" shift.fields[0], by rw [hroot]; exact .head _, .self⟩
  have hremark : tree.HasKind (.union [.null, .scalar .string]) :=
    ⟨tree.root, .inl rfl, .ofDecl ∅ "Shift" shift.fields[1], by rw [hroot]; exact .tail _ (.head _),
      .self⟩
  refine ⟨tree, h, hnote, hremark, hnullable, (hkinds _ _).mpr (by decide), ?_⟩
  rw [Bool.eq_false_iff, ne_eq, hdiscerned _ _ hnote hremark]
  decide

end SchemaTree

end LinkedSchema
