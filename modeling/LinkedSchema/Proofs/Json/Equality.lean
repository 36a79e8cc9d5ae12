import LinkedSchema.Proofs.Json.Parts
import Mathlib.Data.List.Forall2

/-!
# Equality of JSON values

Equality in the sense of the format compares arrays item by item and objects key by key. It is
transitive, also where an object has two members of one key: what is found under a key is a member
of the object that it is found in.
-/

namespace LinkedSchema.Json

/-- Two arrays are equal exactly if their items are equal one by one. -/
theorem equalItems_iff {items others : List Json} :
    equalItems items others = true ↔
      List.Forall₂ (fun item other => item.equal other = true) items others := by
  induction items generalizing others with
  | nil => cases others <;> simp [equalItems]
  | cons item items ih => cases others <;> simp [equalItems, ih]

/-- The members of an object are found with equal values in another exactly if each of them is. -/
theorem equalMembers_iff {members others : List (String × Json)} :
    equalMembers members others = true ↔ ∀ member ∈ members,
      ∃ other, Table.get? others member.1 = some other ∧ member.2.equal other = true := by
  induction members with
  | nil => simp [equalMembers]
  | cons member members ih =>
    obtain ⟨key, value⟩ := member
    rw [equalMembers, Bool.and_eq_true, ih, List.forall_mem_cons]
    refine and_congr_left fun _ => ?_
    cases Table.get? others key <;> simp

/-- If the items of one array are equal to those of a second and these to those of a third, the first
array is equal to the third, provided that equality of the items is transitive. -/
theorem equalItems_trans {items others : List Json}
    (hitem : ∀ item ∈ items, ∀ other third : Json, item.equal other = true →
      other.equal third = true → item.equal third = true) (hfirst : equalItems items others = true)
    {thirds : List Json} (hsecond : equalItems others thirds = true) :
    equalItems items thirds = true := by
  induction items generalizing others thirds with
  | nil =>
    cases others with
    | nil => exact hsecond
    | cons => cases hfirst
  | cons item items ih =>
    cases others with
    | nil => cases hfirst
    | cons other others =>
      cases thirds with
      | nil => cases hsecond
      | cons third thirds =>
        simp only [equalItems, Bool.and_eq_true] at hfirst hsecond ⊢
        obtain ⟨hhead, hitems⟩ := List.forall_mem_cons.mp hitem
        exact ⟨hhead other third hfirst.1 hsecond.1, ih hitems hfirst.2 hsecond.2⟩

/-- Values equal to the same value in turn are equal. -/
theorem equal_trans {value other third : Json} (hfirst : value.equal other = true)
    (hsecond : other.equal third = true) : value.equal third = true := by
  induction value using Json.induction generalizing other third with
  | null =>
    cases other <;> simp only [equal, Bool.false_eq_true] at hfirst
    exact hsecond
  | bool value =>
    cases other <;> simp only [equal, Bool.false_eq_true, beq_iff_eq] at hfirst
    exact hfirst ▸ hsecond
  | num n =>
    cases other <;> simp only [equal, Bool.false_eq_true] at hfirst
    cases third <;> simp only [equal, Bool.false_eq_true] at hsecond
    exact Number.equal_trans hfirst hsecond
  | str s =>
    cases other <;> simp only [equal, Bool.false_eq_true, beq_iff_eq] at hfirst
    exact hfirst ▸ hsecond
  | arr items ih =>
    cases other <;> simp only [equal, Bool.false_eq_true] at hfirst
    cases third <;> simp only [equal, Bool.false_eq_true] at hsecond
    exact equalItems_trans (fun item hitem _ _ => ih item hitem) hfirst hsecond
  | obj members ih =>
    cases other <;> simp only [equal, Bool.false_eq_true, Bool.and_eq_true, beq_iff_eq] at hfirst
    cases third <;> simp only [equal, Bool.false_eq_true, Bool.and_eq_true, beq_iff_eq] at hsecond
    rw [equalMembers_iff] at hfirst hsecond
    rw [equal, Bool.and_eq_true, beq_iff_eq, equalMembers_iff]
    refine ⟨hfirst.1.trans hsecond.1, ?_⟩
    intro member hmember
    obtain ⟨middle, hmiddle, hequal⟩ := hfirst.2 member hmember
    obtain ⟨last, hlast, hnext⟩ := hsecond.2 _ (Table.mem_of_get? hmiddle)
    exact ⟨last, hlast, ih member hmember hequal hnext⟩

end LinkedSchema.Json
