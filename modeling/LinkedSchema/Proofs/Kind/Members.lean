import LinkedSchema.Schema
import Mathlib.Data.List.Forall2

/-!
# Members of unions

The functions on kinds have companions for the members of a union. Each companion is stated here
through the function on kinds, and induction over kinds gets one hypothesis for every member.
-/

namespace LinkedSchema.Kind

/-- Induction over kinds, with the property at hand for every member of a union. -/
@[elab_as_elim]
theorem induction {motive : Kind → Prop}
    (scalar : ∀ type, motive (.scalar type))
    (enumeration : ∀ literals, motive (.enumeration literals))
    (reference : ∀ name, motive (.reference name))
    (collection : ∀ item, motive item → motive (.collection item))
    (union : ∀ members, (∀ kind ∈ members, motive kind) → motive (.union members))
    (nullable : ∀ inner, motive inner → motive (.nullable inner)) (kind : Kind) : motive kind := by
  refine @Kind.rec motive (fun members => ∀ kind ∈ members, motive kind)
    scalar enumeration reference collection union nullable ?_ ?_ kind
  · simp
  · intro kind kinds hkind hkinds other hother
    rcases List.mem_cons.mp hother with rfl | hother
    · exact hkind
    · exact hkinds other hother

/-- The references of the members of a union are those of each member in turn. -/
theorem edgesOfMembers_eq_flatMap (indirect : Bool) (members : List Kind) :
    edgesOfMembers indirect members = members.flatMap (edges indirect) := by
  induction members with
  | nil => rfl
  | cons kind kinds ih => simp [edgesOfMembers, ih]

/-- Members contribute to a normal union one after another. -/
theorem normalizeMembers_eq_flatMap (members : List Kind) :
    normalizeMembers members = members.flatMap fun kind => alternatives (normalize kind) := by
  induction members with
  | nil => rfl
  | cons kind kinds ih => simp [normalizeMembers, ih]

/-- The schemas of the members of a union are those of each member. -/
theorem schemaMembers_eq_map (members : List Kind) :
    schemaMembers members = members.map schema := by
  induction members with
  | nil => rfl
  | cons kind kinds ih => simp [schemaMembers, ih]

/-- Two unions are equal exactly when their members are equal one by one. -/
theorem equalMembers_iff {members others : List Kind} :
    equalMembers members others = true ↔
      List.Forall₂ (fun kind other => kind.equal other = true) members others := by
  induction members generalizing others with
  | nil => cases others <;> simp [equalMembers]
  | cons kind kinds ih => cases others <;> simp [equalMembers, ih]

/-- Induction over two equal kinds. They are of one form, and the property is at hand for the equal
kinds inside them. -/
@[elab_as_elim]
theorem induction_of_equal {motive : Kind → Kind → Prop}
    (scalar : ∀ type, motive (.scalar type) (.scalar type))
    (enumeration : ∀ literals others, Json.equalItems literals others = true →
      motive (.enumeration literals) (.enumeration others))
    (reference : ∀ name, motive (.reference name) (.reference name))
    (collection : ∀ item other, motive item other → motive (.collection item) (.collection other))
    (union : ∀ members others, equalMembers members others = true →
      List.Forall₂ motive members others → motive (.union members) (.union others))
    (nullable : ∀ inner other, motive inner other → motive (.nullable inner) (.nullable other))
    {kind other : Kind} (h : kind.equal other = true) : motive kind other := by
  induction kind using Kind.induction generalizing other with
  | scalar type =>
    cases other <;> simp only [equal, Bool.false_eq_true, decide_eq_true_eq] at h
    exact h ▸ scalar type
  | enumeration literals =>
    cases other <;> simp only [equal, Bool.false_eq_true] at h
    exact enumeration _ _ h
  | reference name =>
    cases other <;> simp only [equal, Bool.false_eq_true, decide_eq_true_eq] at h
    exact h ▸ reference name
  | collection item ih =>
    cases other <;> simp only [equal, Bool.false_eq_true] at h
    exact collection _ _ (ih h)
  | nullable inner ih =>
    cases other <;> simp only [equal, Bool.false_eq_true] at h
    exact nullable _ _ (ih h)
  | union members ih =>
    cases other <;> simp only [equal, Bool.false_eq_true] at h
    refine union _ _ h ?_
    have hpairs := equalMembers_iff.mp h
    clear h
    induction hpairs with
    | nil => exact .nil
    | cons hhead _ ihtail =>
      exact .cons (ih _ List.mem_cons_self hhead)
        (ihtail fun kind hkind _ => ih kind (List.mem_cons_of_mem _ hkind))

/-- What kinds have in common one by one is found among the first exactly if it is found among the
others. -/
theorem exists_mem_iff_of_forall₂ {holds : Kind → Prop} {kinds others : List Kind}
    (h : List.Forall₂ (fun kind other => holds kind ↔ holds other) kinds others) :
    (∃ kind ∈ kinds, holds kind) ↔ ∃ kind ∈ others, holds kind := by
  induction h with
  | nil => simp
  | cons hhead _ ih => simp only [List.mem_cons, exists_eq_or_imp, hhead, ih]

end LinkedSchema.Kind
