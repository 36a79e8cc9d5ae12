import LinkedSchema.Kind.Wire
import LinkedSchema.Proofs.Json.Codec
import LinkedSchema.Proofs.Schema.Everywhere

/-!
# Kinds are read back

A kind is written with the key of its form around its content, and read by the same key. So it is
read back if the literals of its enumerations are, which alone are written as they are.
-/

namespace LinkedSchema.Kind

open Json (IsStructural)

mutual

/-- The values in a kind that are written as they are: the literals of its enumerations. -/
def literals : Kind → List Json
  | .scalar _ => []
  | .enumeration values => values
  | .reference _ => []
  | .collection item => literals item
  | .union members => literalsOfMembers members
  | .nullable inner => literals inner

/-- The literals of the members of a union. -/
def literalsOfMembers : List Kind → List Json
  | [] => []
  | kind :: kinds => literals kind ++ literalsOfMembers kinds

end

variable {kind : Kind} {holds : Json → Prop}

/-- The literals of a member are literals of the union. -/
theorem mem_literalsOfMembers {members : List Kind} {literal : Json} (hkind : kind ∈ members)
    (h : literal ∈ kind.literals) : literal ∈ literalsOfMembers members := by
  induction members with
  | nil => cases hkind
  | cons first members ih =>
    rw [literalsOfMembers, List.mem_append]
    rcases List.mem_cons.mp hkind with rfl | hkind
    · exact .inl h
    · exact .inr (ih hkind)

/-- What is structural holds everywhere in what is written for a kind if it does in the literals. -/
theorem everywhere_toJson (h : IsStructural holds)
    (hliterals : ∀ literal ∈ kind.literals, literal.Everywhere holds) :
    kind.toJson.Everywhere holds := by
  induction kind using Kind.induction with
  | scalar type => simp [toJson, h.obj, h.str, Table.keys]
  | enumeration values =>
    rw [literals] at hliterals
    simpa [toJson, h.obj, h.arr, Table.keys] using hliterals
  | reference name => simp [toJson, h.obj, h.str, Table.keys]
  | collection item ih => simpa [toJson, h.obj, Table.keys] using ih hliterals
  | nullable inner ih => simpa [toJson, h.obj, Table.keys] using ih hliterals
  | union members ih =>
    have hmembers : ∀ kind ∈ members, kind.toJson.Everywhere holds := by
      intro kind hkind
      exact ih kind hkind fun literal hliteral =>
        hliterals literal (mem_literalsOfMembers hkind hliteral)
    simpa [toJson, membersToJson_eq_map, h.obj, h.arr, Table.keys] using hmembers

/-- Members of a union that are read back one by one are read back in turn. -/
theorem ofItems_draftItems {depth : Nat} {members : List Kind}
    (h : ∀ kind ∈ members, ofDraft depth kind.toJson.draft = .ok kind) :
    ofItems depth (Json.draftItems (membersToJson members)) = .ok members := by
  induction members with
  | nil => rfl
  | cons kind kinds ih =>
    obtain ⟨hkind, hkinds⟩ := List.forall_mem_cons.mp h
    rw [membersToJson, Json.draftItems, ofItems, hkind, ih hkinds]
    rfl

/-- It is enough that a kind is read with its content, the one member of what is written for it. -/
theorem readsBack_of_content {key : String} {content : Json}
    (hwritten : kind.toJson = .obj [(key, content)])
    (h : ∀ depth, content.nesting ≤ depth → ofDraft (depth + 1) kind.toJson.draft = .ok kind) :
    ReadsBack toJson ofDraft kind := by
  intro depth hdepth
  rw [hwritten] at hdepth
  obtain ⟨inner, rfl, hinner⟩ := Json.exists_depth_of_obj hdepth
  exact h inner (hinner (key, content) List.mem_cons_self)

/-- A kind is read back from what is written for it, if its literals are plain. -/
theorem readsBack (h : ∀ literal ∈ kind.literals, literal.IsPlain) :
    ReadsBack toJson ofDraft kind := by
  induction kind using Kind.induction with
  | scalar type =>
    refine readsBack_of_content rfl fun depth _ => ?_
    cases type <;> rfl
  | enumeration values =>
    refine readsBack_of_content rfl fun depth hdepth => ?_
    have hread : ∀ value ∈ values, ReadsBack id Draft.toJson value :=
      fun value hvalue => (h value hvalue).readsBack
    have hvalues : (Json.arr values).draft.toList Draft.toJson depth = .ok values := by
      simpa using readsBack_list hread depth (by simpa using hdepth)
    show (do
      let kind ← Kind.enumeration <$> (Json.arr values).draft.toList Draft.toJson depth
      Draft.finish none
      return kind) = _
    rw [hvalues]
    rfl
  | reference name => exact readsBack_of_content rfl fun depth _ => rfl
  | collection item ih =>
    refine readsBack_of_content rfl fun depth hdepth => ?_
    show (do
      let kind ← Kind.collection <$> ofDraft depth item.toJson.draft
      Draft.finish none
      return kind) = _
    rw [ih h depth hdepth]
    rfl
  | nullable inner ih =>
    refine readsBack_of_content rfl fun depth hdepth => ?_
    show (do
      let kind ← Kind.nullable <$> ofDraft depth inner.toJson.draft
      Draft.finish none
      return kind) = _
    rw [ih h depth hdepth]
    rfl
  | union members ih =>
    refine readsBack_of_content rfl fun depth hdepth => ?_
    obtain ⟨depth, rfl, hmembers⟩ := Json.exists_depth_of_arr hdepth
    rw [membersToJson_eq_map, List.forall_mem_map] at hmembers
    have hitems : ofItems depth (Json.draftItems (membersToJson members)) = .ok members := by
      refine ofItems_draftItems fun kind hkind => ?_
      have hliterals : ∀ literal ∈ kind.literals, literal.IsPlain :=
        fun literal hliteral => h literal (mem_literalsOfMembers hkind hliteral)
      exact ih kind hkind hliterals depth (hmembers kind hkind)
    show (do
      let kinds ← ofItems depth (Json.draftItems (membersToJson members))
      Draft.finish none
      let kind ← pure (Kind.union kinds)
      Draft.finish none
      return kind) = _
    rw [hitems]
    rfl

/-- A kind is read back from its texts, if its literals are plain. -/
theorem read_texts (h : ∀ literal ∈ kind.literals, literal.IsPlain)
    (hnesting : kind.toJson.nesting ≤ Draft.nestingLimit) :
    ∀ text ∈ kind.toJson.texts, read text = .ok kind := by
  have hnumbers : kind.toJson.Everywhere Json.Survives :=
    everywhere_toJson Json.isStructural_survives fun literal hliteral => (h literal hliteral).numbers
  exact (readsBack h).readWith hnumbers hnesting

end LinkedSchema.Kind
