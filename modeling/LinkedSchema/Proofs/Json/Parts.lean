import LinkedSchema.Json.Basic
import Mathlib.Init

/-!
# Values inside values

A value is made of parts: itself, and the parts of its items or members. What is required of all of
them is required of the value everywhere, as that no object has two members of one key. The nesting
of a value is the greatest number of arrays and objects inside each other in it.
-/

namespace LinkedSchema

namespace Table

variable {α : Type}

/-- Writing a value under a key adds at most this entry. -/
theorem mem_insert {table : Table α} {key : String} {value : α} {entry : String × α}
    (h : entry ∈ insert table key value) : entry ∈ table ∨ entry = (key, value) := by
  induction table with
  | nil => exact .inr (List.mem_singleton.mp h)
  | cons first rest ih =>
    obtain ⟨name, old⟩ := first
    rw [insert] at h
    split at h
    · next hname =>
      subst hname
      rcases List.mem_cons.mp h with rfl | h
      · exact .inr rfl
      · exact .inl (List.mem_cons_of_mem _ h)
    · rcases List.mem_cons.mp h with rfl | h
      · exact .inl List.mem_cons_self
      · exact (ih h).imp_left (List.mem_cons_of_mem _)

/-- Writing entries adds at most these entries. -/
theorem mem_insertAll {table : Table α} {entries : List (String × α)} {entry : String × α}
    (h : entry ∈ insertAll table entries) : entry ∈ table ∨ entry ∈ entries := by
  induction entries generalizing table with
  | nil => exact .inl h
  | cons first entries ih =>
    rcases ih h with h | h
    · rcases mem_insert h with h | rfl
      · exact .inl h
      · exact .inr List.mem_cons_self
    · exact .inr (List.mem_cons_of_mem _ h)

end Table

namespace Json

/-- Induction over values, with the property at hand for every item and every member. -/
@[elab_as_elim]
theorem induction {motive : Json → Prop} (null : motive .null)
    (bool : ∀ value, motive (.bool value)) (num : ∀ n, motive (.num n))
    (str : ∀ s, motive (.str s))
    (arr : ∀ items, (∀ item ∈ items, motive item) → motive (.arr items))
    (obj : ∀ members, (∀ member ∈ members, motive member.2) → motive (.obj members))
    (value : Json) : motive value := by
  refine @Json.rec motive (fun items => ∀ item ∈ items, motive item)
    (fun members => ∀ member ∈ members, motive member.2) (fun member => motive member.2)
    null bool num str arr obj ?_ ?_ ?_ ?_ ?_ value
  · simp
  · exact fun _ _ hitem hitems => List.forall_mem_cons.mpr ⟨hitem, hitems⟩
  · simp
  · exact fun _ _ hmember hmembers => List.forall_mem_cons.mpr ⟨hmember, hmembers⟩
  · exact fun _ _ hvalue => hvalue

mutual

/-- The values that a value is made of, itself first. -/
def parts : Json → List Json
  | .arr items => .arr items :: partsOfItems items
  | .obj members => .obj members :: partsOfMembers members
  | value => [value]

/-- The parts of items. -/
def partsOfItems : List Json → List Json
  | [] => []
  | item :: items => parts item ++ partsOfItems items

/-- The parts of members. -/
def partsOfMembers : List (String × Json) → List Json
  | [] => []
  | (_, value) :: members => parts value ++ partsOfMembers members

end

mutual

/-- The number of containers around the innermost part of a value. -/
def nesting : Json → Nat
  | .arr items => nestingOfItems items + 1
  | .obj members => nestingOfMembers members + 1
  | _ => 0

/-- The greatest nesting of an item. -/
def nestingOfItems : List Json → Nat
  | [] => 0
  | item :: items => max (nesting item) (nestingOfItems items)

/-- The greatest nesting of a member. -/
def nestingOfMembers : List (String × Json) → Nat
  | [] => 0
  | (_, value) :: members => max (nesting value) (nestingOfMembers members)

end

/-- Something holds of every part of a value. -/
def Everywhere (holds : Json → Prop) (value : Json) : Prop :=
  ∀ part ∈ value.parts, holds part

instance (holds : Json → Prop) [DecidablePred holds] : DecidablePred (Everywhere holds) :=
  fun value => inferInstanceAs (Decidable (∀ part ∈ value.parts, holds part))

variable {holds : Json → Prop}

/-- The parts of items are the parts of each of them in order. -/
theorem partsOfItems_eq_flatMap (items : List Json) :
    partsOfItems items = items.flatMap parts := by
  induction items with
  | nil => rfl
  | cons item items ih => rw [partsOfItems, List.flatMap_cons, ih]

/-- The parts of members are the parts of each of their values in order. -/
theorem partsOfMembers_eq_flatMap (members : List (String × Json)) :
    partsOfMembers members = members.flatMap fun member => member.2.parts := by
  induction members with
  | nil => rfl
  | cons member members ih => rw [partsOfMembers, List.flatMap_cons, ih]

/-- Null is its only part. -/
@[simp] theorem everywhere_null_iff : Everywhere holds .null ↔ holds .null := by
  simp [Everywhere, parts]

/-- A truth value is its only part. -/
@[simp] theorem everywhere_bool_iff {value : Bool} :
    Everywhere holds (.bool value) ↔ holds (.bool value) := by
  simp [Everywhere, parts]

/-- A number is its only part. -/
@[simp] theorem everywhere_num_iff {n : Number} : Everywhere holds (.num n) ↔ holds (.num n) := by
  simp [Everywhere, parts]

/-- A string is its only part. -/
@[simp] theorem everywhere_str_iff {s : String} : Everywhere holds (.str s) ↔ holds (.str s) := by
  simp [Everywhere, parts]

/-- Something holds everywhere in an array if it holds of the array and everywhere in its items. -/
@[simp] theorem everywhere_arr_iff {items : List Json} :
    Everywhere holds (.arr items) ↔ holds (.arr items) ∧ ∀ item ∈ items, item.Everywhere holds := by
  simp only [Everywhere, parts, partsOfItems_eq_flatMap, List.forall_mem_cons, List.mem_flatMap,
    forall_exists_index, and_imp]
  exact and_congr_right fun _ => ⟨fun h item hitem part => h part item hitem,
    fun h part item hitem => h item hitem part⟩

/-- Something holds everywhere in an object if it holds of the object and everywhere in its
members. -/
@[simp] theorem everywhere_obj_iff {members : List (String × Json)} :
    Everywhere holds (.obj members) ↔
      holds (.obj members) ∧ ∀ member ∈ members, member.2.Everywhere holds := by
  simp only [Everywhere, parts, partsOfMembers_eq_flatMap, List.forall_mem_cons, List.mem_flatMap,
    forall_exists_index, and_imp]
  exact and_congr_right fun _ => ⟨fun h member hmember part => h part member hmember,
    fun h part member hmember => h member hmember part⟩

/-- An item is nested less deep than its array. -/
theorem nesting_le_of_mem {items : List Json} {item : Json} (h : item ∈ items) :
    item.nesting ≤ nestingOfItems items := by
  induction items with
  | nil => cases h
  | cons first items ih =>
    rw [nestingOfItems]
    rcases List.mem_cons.mp h with rfl | h
    · exact Nat.le_max_left _ _
    · exact Nat.le_trans (ih h) (Nat.le_max_right _ _)

/-- A member is nested less deep than its object. -/
theorem nesting_le_of_mem_members {members : List (String × Json)} {member : String × Json}
    (h : member ∈ members) : member.2.nesting ≤ nestingOfMembers members := by
  induction members with
  | nil => cases h
  | cons first members ih =>
    rw [nestingOfMembers]
    rcases List.mem_cons.mp h with rfl | h
    · exact Nat.le_max_left _ _
    · exact Nat.le_trans (ih h) (Nat.le_max_right _ _)

/-- If the value is an object, it has no two members of one key. -/
def HasDistinctKeys : Json → Prop
  | .obj members => (Table.keys members).Nodup
  | _ => True

instance : DecidablePred HasDistinctKeys
  | .obj members => inferInstanceAs (Decidable (Table.keys members).Nodup)
  | .null | .bool _ | .num _ | .str _ | .arr _ => isTrue trivial

/-- Distinct keys are required of objects. -/
@[simp] theorem hasDistinctKeys_obj_iff {members : List (String × Json)} :
    (Json.obj members).HasDistinctKeys ↔ (Table.keys members).Nodup := Iff.rfl

/-- Nothing is required of the keys of an array, which has none. -/
@[simp] theorem hasDistinctKeys_arr (items : List Json) : (Json.arr items).HasDistinctKeys :=
  trivial

/-- Nothing is required of the keys of a string, which has none. -/
@[simp] theorem hasDistinctKeys_str (s : String) : (Json.str s).HasDistinctKeys := trivial

/-- Something holds of texts, of arrays and of objects with distinct keys, whatever is in them. -/
structure IsStructural (holds : Json → Prop) : Prop where
  str (s : String) : holds (.str s)
  arr (items : List Json) : holds (.arr items)
  obj {members : List (String × Json)} : (Table.keys members).Nodup → holds (.obj members)

/-- Distinct keys are asked of objects and of nothing else. -/
theorem isStructural_hasDistinctKeys : IsStructural HasDistinctKeys where
  str _ := trivial
  arr _ := trivial
  obj hnodup := hnodup

namespace IsStructural

/-- It is enough that something structural holds everywhere in the members that are written. -/
theorem everywhere_insertAll (h : IsStructural holds) {members entries : List (String × Json)}
    (hnodup : (Table.keys members).Nodup) (hmembers : ∀ member ∈ members, member.2.Everywhere holds)
    (hentries : ∀ entry ∈ entries, entry.2.Everywhere holds) :
    (Json.obj (Table.insertAll members entries)).Everywhere holds := by
  refine everywhere_obj_iff.mpr ⟨h.obj (Table.nodup_keys_insertAll hnodup entries), ?_⟩
  intro entry hentry
  rcases Table.mem_insertAll hentry with hentry | hentry
  · exact hmembers entry hentry
  · exact hentries entry hentry

/-- An object made of a list of entries is as good as the entries. -/
theorem everywhere_ofList (h : IsStructural holds) {entries : List (String × Json)}
    (hentries : ∀ entry ∈ entries, entry.2.Everywhere holds) :
    (Json.obj (Table.ofList entries)).Everywhere holds :=
  h.everywhere_insertAll List.nodup_nil (by simp) hentries

/-- What is structural holds everywhere in a list of names. -/
theorem everywhere_names (h : IsStructural holds) (names : List String) :
    (Json.arr (names.map .str)).Everywhere holds := by
  simp [h.arr, h.str]

end IsStructural

end Json

end LinkedSchema
