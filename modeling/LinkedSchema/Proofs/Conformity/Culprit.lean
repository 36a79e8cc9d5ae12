import LinkedSchema.Proofs.Conformity.Agreement
import Mathlib.Data.List.Induction

/-!
# The part that a refusal points at

The path of a misfit leads from the refused value to a part of it, and from what is declared for the
value to what is declared for the part. It never leads into a union, whose members refuse silently.
The part gives the reason: it has not the form that is declared there.
-/

namespace LinkedSchema

namespace Json

/-- The part of a value to which a step leads: a member of an object or an item of an array. -/
def part? : Json → PathStep → Option Json
  | .obj members, .field name => Table.get? members name
  | .arr items, .index position => items[position]?
  | _, _ => none

/-- The part of a value to which a path leads. -/
def follow (value : Json) : List PathStep → Option Json
  | [] => some value
  | step :: steps => (value.part? step).bind (·.follow steps)

/-- The name of a field leads into objects. -/
theorem part?_field_eq_some_iff {value inner : Json} {name : String} :
    value.part? (.field name) = some inner ↔
      ∃ members, value = .obj members ∧ Table.get? members name = some inner := by
  cases value <;> simp [part?]

/-- The position of an item leads into arrays. -/
theorem part?_index_eq_some_iff {value inner : Json} {position : Nat} :
    value.part? (.index position) = some inner ↔
      ∃ items, value = .arr items ∧ items[position]? = some inner := by
  cases value <;> simp [part?]

/-- A path leads on from the part to which its first step leads. -/
theorem follow_cons_eq_some_iff {value part : Json} {step : PathStep} {steps : List PathStep} :
    value.follow (step :: steps) = some part ↔
      ∃ inner, value.part? step = some inner ∧ inner.follow steps = some part := by
  rw [follow, Option.bind_eq_some_iff]

/-- Nothing has parts but objects and arrays. -/
theorem ne_null_of_follow_cons {value part : Json} {step : PathStep} {steps : List PathStep}
    (h : value.follow (step :: steps) = some part) : value ≠ .null := by
  rintro rfl
  obtain ⟨inner, hinner, -⟩ := follow_cons_eq_some_iff.mp h
  cases hinner

end Json

/-- A text writes a path: it begins with a sign for the checked value, and each step adds a dot and
the name of a field, or the position of an item in brackets. -/
inductive SpellsPath : List PathStep → String → Prop
  | whole : SpellsPath [] "$"
  | field {path : List PathStep} {text name : String} : SpellsPath path text →
    SpellsPath (path ++ [.field name]) (text ++ "." ++ name)
  | index {path : List PathStep} {text : String} {position : Nat} : SpellsPath path text →
    SpellsPath (path ++ [.index position]) (text ++ "[" ++ toString position ++ "]")

/-- One more step adds its text. -/
theorem pathText_concat (path : List PathStep) (step : PathStep) :
    pathText (path ++ [step]) = pathText path ++ step.text := by
  simp [pathText, String.append_assoc]

/-- Messages spell the path step by step. -/
theorem spellsPath_pathText (path : List PathStep) : SpellsPath path (pathText path) := by
  induction path using List.reverseRecOn with
  | nil => exact .whole
  | append_singleton path step ih =>
    rw [pathText_concat]
    cases step with
    | field name =>
      have htext : pathText path ++ (PathStep.field name).text = pathText path ++ "." ++ name := by
        rw [PathStep.text, String.append_assoc]
      exact htext ▸ .field ih
    | index position =>
      have htext : pathText path ++ (PathStep.index position).text =
          pathText path ++ "[" ++ toString position ++ "]" := by
        simp only [PathStep.text, String.append_assoc]
        rfl
      exact htext ▸ .index ih

/-- A message names the path before the reason, unless a definition is missing. -/
theorem Misfit.exists_message {misfit : Misfit}
    (h : ∀ name, misfit.cause ≠ .missingDefinition name) :
    ∃ text reason, SpellsPath misfit.path text ∧ misfit.message = text ++ ": " ++ reason := by
  have hmessage : ∃ reason, misfit.message = pathText misfit.path ++ ": " ++ reason := by
    obtain ⟨path, cause⟩ := misfit
    have hsplit : ∀ start word rest, ": " ++ word = start →
        pathText path ++ (start ++ rest) = pathText path ++ (": " ++ (word ++ rest)) := by
      rintro start word rest rfl
      rw [String.append_assoc]
    cases cause with
    | missingDefinition name => exact absurd rfl (h name)
    | notAnObject type found =>
      refine ⟨"expected an object of type " ++ (type ++ (", got " ++ found.name)), ?_⟩
      simp only [message, String.append_assoc]
      exact hsplit _ _ _ rfl
    | unknownField field =>
      refine ⟨"unknown field " ++ Text.quoted field, ?_⟩
      simp only [message, String.append_assoc]
      exact hsplit _ _ _ rfl
    | missingField field =>
      refine ⟨"missing required field " ++ Text.quoted field, ?_⟩
      simp only [message, String.append_assoc]
      exact hsplit _ _ _ rfl
    | shapeMismatch expected found =>
      refine ⟨"expected " ++ (expected.describe ++ (", got " ++ found.name)), ?_⟩
      simp only [message, String.append_assoc]
      exact hsplit _ _ _ rfl
  obtain ⟨reason, hreason⟩ := hmessage
  exact ⟨_, reason, spellsPath_pathText misfit.path, hreason⟩

/-- What is declared where a value stands: a kind, or for the object itself a type. -/
inductive Declared
  | kind (kind : Kind)
  | object (definition : TypeDefinition)

namespace SchemaTree

variable {tree : SchemaTree} {definition : TypeDefinition} {value : Json}

/-- What is declared for the part of a value to which a path leads. A path leads through types that
are referred to and through nullables, and never into a union. -/
inductive Declares (tree : SchemaTree) : Declared → List PathStep → Declared → Prop
  | here {declared : Declared} : Declares tree declared [] declared
  | field {definition : TypeDefinition} {field : Property} {path : List PathStep}
    {target : Declared} : field ∈ definition.fields →
    Declares tree (.kind field.kind) path target →
    Declares tree (.object definition) (.field field.name :: path) target
  | item {item : Kind} {position : Nat} {path : List PathStep} {target : Declared} :
    Declares tree (.kind item) path target →
    Declares tree (.kind (.collection item)) (.index position :: path) target
  | reference {name : String} {definition : TypeDefinition} {step : PathStep}
    {path : List PathStep} {target : Declared} : tree.get? name = some definition →
    Declares tree (.object definition) (step :: path) target →
    Declares tree (.kind (.reference name)) (step :: path) target
  | nullable {inner : Kind} {step : PathStep} {path : List PathStep} {target : Declared} :
    Declares tree (.kind inner) (step :: path) target →
    Declares tree (.kind (.nullable inner)) (step :: path) target

/-- A value justifies the cause for which it is refused with respect to what is declared for it. -/
inductive Justifies (tree : SchemaTree) : Declared → Json → MisfitCause → Prop
  | scalar {type : ScalarType} {value : Json} : type.accepts value = false →
    Justifies tree (.kind (.scalar type)) value (.shapeMismatch (.scalar type) value.shape)
  | enumeration {literals : List Json} {value : Json} :
    (∀ literal ∈ literals, literal.equal value = false) →
    Justifies tree (.kind (.enumeration literals)) value
      (.shapeMismatch (.enumeration literals) value.shape)
  | collection {item : Kind} {value : Json} : (∀ items, value ≠ .arr items) →
    Justifies tree (.kind (.collection item)) value
      (.shapeMismatch (.collection item) value.shape)
  | union {members : List Kind} {value : Json} : (∀ member ∈ members, ¬ tree.Passes member value) →
    Justifies tree (.kind (.union members)) value (.shapeMismatch (.union members) value.shape)
  | notAnObject {definition : TypeDefinition} {value : Json} : (∀ members, value ≠ .obj members) →
    Justifies tree (.object definition) value (.notAnObject definition.name value.shape)
  | unknownField {definition : TypeDefinition} {members : List (String × Json)} {key : String} :
    key ∈ Table.keys members → (∀ field ∈ definition.fields, field.name ≠ key) →
    Justifies tree (.object definition) (.obj members) (.unknownField key)
  | missingField {definition : TypeDefinition} {members : List (String × Json)}
    {field : Property} : field ∈ definition.fields → field.default = none →
    field.name ∉ Table.keys members →
    Justifies tree (.object definition) (.obj members) (.missingField field.name)
  | missingDefinition {name : String} {value : Json} : tree.get? name = none →
    Justifies tree (.kind (.reference name)) value (.missingDefinition name)
  | reference {name : String} {definition : TypeDefinition} {value : Json} {cause : MisfitCause} :
    tree.get? name = some definition → Justifies tree (.object definition) value cause →
    Justifies tree (.kind (.reference name)) value cause
  | nullable {inner : Kind} {value : Json} {cause : MisfitCause} : value ≠ .null →
    Justifies tree (.kind inner) value cause →
    Justifies tree (.kind (.nullable inner)) value cause

/-- A misfit points at its culprit: its path leads to a part of the value, and the part justifies
the cause with respect to what is declared for it. -/
def PointsAt (tree : SchemaTree) (declared : Declared) (value : Json) (misfit : Misfit) : Prop :=
  ∃ target part, tree.Declares declared misfit.path target ∧
    value.follow misfit.path = some part ∧ tree.Justifies target part misfit.cause

namespace PointsAt

variable {misfit : Misfit}

/-- What is wrong with the value itself needs no path. -/
theorem here {declared : Declared} {cause : MisfitCause}
    (h : tree.Justifies declared value cause) : tree.PointsAt declared value { cause } :=
  ⟨declared, value, .here, rfl, h⟩

/-- What is wrong with a member is wrong in the object. -/
theorem member {field : Property} {members : List (String × Json)} {given : Json}
    (hfield : field ∈ definition.fields) (hgiven : Table.get? members field.name = some given)
    (h : tree.PointsAt (.kind field.kind) given misfit) :
    tree.PointsAt (.object definition) (.obj members) (misfit.under (.field field.name)) := by
  obtain ⟨target, part, hdeclares, hfollow, hjustifies⟩ := h
  have hpart : (Json.obj members).follow (.field field.name :: misfit.path) = some part :=
    Json.follow_cons_eq_some_iff.mpr ⟨given, hgiven, hfollow⟩
  exact ⟨target, part, .field hfield hdeclares, hpart, hjustifies⟩

/-- What is wrong with an item is wrong in the array. -/
theorem item {item : Kind} {items : List Json} {position : Nat} {given : Json}
    (hgiven : items[position]? = some given) (h : tree.PointsAt (.kind item) given misfit) :
    tree.PointsAt (.kind (.collection item)) (.arr items) (misfit.under (.index position)) := by
  obtain ⟨target, part, hdeclares, hfollow, hjustifies⟩ := h
  have hpart : (Json.arr items).follow (.index position :: misfit.path) = some part :=
    Json.follow_cons_eq_some_iff.mpr ⟨given, hgiven, hfollow⟩
  exact ⟨target, part, .item hdeclares, hpart, hjustifies⟩

/-- What is wrong with respect to a type is wrong with respect to a reference to it. -/
theorem reference {name : String} (hdefinition : tree.get? name = some definition)
    (h : tree.PointsAt (.object definition) value misfit) :
    tree.PointsAt (.kind (.reference name)) value misfit := by
  obtain ⟨path, cause⟩ := misfit
  obtain ⟨target, part, hdeclares, hfollow, hjustifies⟩ := h
  cases path with
  | nil =>
    cases hdeclares
    exact ⟨_, part, .here, hfollow, .reference hdefinition hjustifies⟩
  | cons step path => exact ⟨target, part, .reference hdefinition hdeclares, hfollow, hjustifies⟩

/-- What is wrong with a value other than null with respect to a kind is wrong with respect to the
nullable variant of the kind. -/
theorem nullable {inner : Kind} (hvalue : value ≠ .null)
    (h : tree.PointsAt (.kind inner) value misfit) :
    tree.PointsAt (.kind (.nullable inner)) value misfit := by
  obtain ⟨path, cause⟩ := misfit
  obtain ⟨target, part, hdeclares, hfollow, hjustifies⟩ := h
  cases path with
  | nil =>
    cases hdeclares
    cases hfollow
    exact ⟨_, value, .here, rfl, .nullable hvalue hjustifies⟩
  | cons step path => exact ⟨target, part, .nullable hdeclares, hfollow, hjustifies⟩

end PointsAt

/-- The first item that is refused is to blame. -/
theorem exists_item_of_checkItems {kind : Kind} {position : Nat} {items : List Json}
    {misfit : Misfit} (h : tree.checkItems kind position items = .error misfit) :
    ∃ offset item inner, items[offset]? = some item ∧ tree.check kind item = .error inner ∧
      inner.under (.index (position + offset)) = misfit := by
  induction items generalizing position with
  | nil =>
    rw [checkItems] at h
    cases h
  | cons item items ih =>
    rw [checkItems] at h
    rcases Outcome.bind_eq_error_iff.mp h with h | ⟨checked, -, h⟩
    · obtain ⟨inner, hinner, rfl⟩ := Outcome.mapError_eq_error_iff.mp h
      exact ⟨0, item, inner, rfl, hinner, rfl⟩
    · rcases Outcome.bind_eq_error_iff.mp h with h | ⟨results, -, h⟩
      · obtain ⟨offset, other, inner, hother, hinner, rfl⟩ := ih h
        exact ⟨offset + 1, other, inner, hother, hinner, by rw [Nat.add_right_comm, Nat.add_assoc]⟩
      · cases h

/-- The first field that cannot be filled is to blame: its member is refused, or it has neither a
member nor a default. -/
theorem exists_field_of_checkFields {fields : List Property} {members : List (String × Json)}
    {misfit : Misfit} (h : tree.checkFields fields members = .error misfit) :
    ∃ field ∈ fields,
      (∃ given inner, Table.get? members field.name = some given ∧
        tree.check field.kind given = .error inner ∧
          inner.under (.field field.name) = misfit) ∨
      (field.name ∉ Table.keys members ∧ field.default = none ∧
        misfit = { cause := .missingField field.name }) := by
  induction fields with
  | nil =>
    rw [checkFields] at h
    cases h
  | cons field fields ih =>
    rw [checkFields] at h
    rcases Outcome.bind_eq_error_iff.mp h with h | ⟨checked, -, h⟩
    · refine ⟨field, List.mem_cons_self, ?_⟩
      split at h
      · next given hgiven =>
        obtain ⟨inner, hinner, rfl⟩ := Outcome.mapError_eq_error_iff.mp h
        exact .inl ⟨given, inner, hgiven, hinner, rfl⟩
      · next hnone =>
        cases hdefault : field.default with
        | none =>
          rw [hdefault] at h
          cases h
          exact .inr ⟨Table.get?_eq_none_iff.mp hnone, rfl, rfl⟩
        | some default =>
          rw [hdefault] at h
          cases h
    · rcases Outcome.bind_eq_error_iff.mp h with h | ⟨entries, -, h⟩
      · obtain ⟨other, hother, hcause⟩ := ih h
        exact ⟨other, List.mem_cons_of_mem _ hother, hcause⟩
      · cases h

/-- If refusals of smaller values point at their culprits, so do refusals of objects. -/
theorem pointsAt_of_smaller {misfit : Misfit}
    (hsmaller : ∀ inner : Json, inner.size < value.size → ∀ kind misfit,
      tree.check kind inner = .error misfit → tree.PointsAt (.kind kind) inner misfit)
    (h : tree.checkObject definition value = .error misfit) :
    tree.PointsAt (.object definition) value misfit := by
  rw [checkObject.eq_def] at h
  cases value with
  | obj members =>
    simp only at h
    split at h
    · next key hkey =>
      cases h
      obtain ⟨member, hfound, rfl⟩ := Option.map_eq_some_iff.mp hkey
      refine .here (.unknownField (List.mem_map_of_mem (List.mem_of_find?_eq_some hfound)) ?_)
      simpa [TypeDefinition.field?] using List.find?_some hfound
    · obtain ⟨field, hfield, hcause⟩ := exists_field_of_checkFields (Outcome.map_eq_error_iff.mp h)
      rcases hcause with ⟨given, inner, hgiven, hinner, rfl⟩ | ⟨hmissing, hdefault, rfl⟩
      · have hpoints := hsmaller given (size_lt_of_get? hgiven) field.kind inner hinner
        exact .member hfield hgiven hpoints
      · exact .here (.missingField hfield hdefault hmissing)
  | _ =>
    cases h
    exact .here (.notAnObject (by simp))

/-- A refusal of the check points at its culprit. -/
theorem pointsAt_of_check {kind : Kind} {misfit : Misfit}
    (h : tree.check kind value = .error misfit) : tree.PointsAt (.kind kind) value misfit := by
  -- The value gets smaller from an object or an array to a part, the kind in all other cases.
  induction hsize : value.size using Nat.strongRecOn generalizing kind value misfit with
  | ind size ihvalue =>
    subst hsize
    induction kind using Kind.induction generalizing misfit with
    | scalar type =>
      rw [check] at h
      split at h
      · cases h
      · next hrefused =>
        cases h
        exact .here (.scalar (by simpa using hrefused))
    | enumeration literals =>
      rw [check] at h
      split at h
      · cases h
      · next hrefused =>
        cases h
        exact .here (.enumeration (by simpa using hrefused))
    | reference name =>
      rw [check] at h
      split at h
      · next hnone =>
        cases h
        exact .here (.missingDefinition hnone)
      · next definition hdefinition =>
        refine .reference hdefinition (pointsAt_of_smaller ?_ (Outcome.map_eq_error_iff.mp h))
        intro inner hsmaller kind misfit hinner
        exact ihvalue inner.size hsmaller hinner rfl
    | collection item ih =>
      rw [check.eq_def] at h
      cases value with
      | arr items =>
        obtain ⟨offset, given, inner, hgiven, hinner, rfl⟩ :=
          exists_item_of_checkItems (Outcome.map_eq_error_iff.mp h)
        rw [Nat.zero_add]
        have hsmaller := Json.size_le_of_mem (List.mem_of_getElem? hgiven)
        exact .item hgiven (ihvalue given.size (by simp only [Json.size]; omega) hinner rfl)
      | _ =>
        cases h
        exact .here (.collection (by simp))
    | union members ih =>
      rw [check] at h
      split at h
      · cases h
      · next hnone =>
        cases h
        refine .here (.union ?_)
        rintro member hmember ⟨checked, hchecked⟩
        obtain ⟨result, hresult⟩ := exists_firstFit hmember hchecked
        cases hnone.symm.trans hresult
    | nullable inner ih =>
      rw [check] at h
      split at h
      · cases h
      · next hvalue => exact .nullable hvalue (ih h)

/-- So does a refusal of an object. -/
theorem pointsAt_of_checkObject {misfit : Misfit}
    (h : tree.checkObject definition value = .error misfit) :
    tree.PointsAt (.object definition) value misfit :=
  pointsAt_of_smaller (fun _ _ _ _ hinner => pointsAt_of_check hinner) h

end SchemaTree

end LinkedSchema
