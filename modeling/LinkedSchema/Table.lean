/-!
# Tables in writing order

A table keeps its entries in the order in which their keys were first written. Writing a key that
is already there replaces its value and keeps its place. Objects of JSON and scopes of a context
are tables.
-/

namespace LinkedSchema

/-- Entries under textual keys, in the order in which the keys were first written. -/
abbrev Table (α : Type) := List (String × α)

namespace Table

variable {α β : Type}

/-- The value under a key; of several entries under one key the first counts. -/
def get? : Table α → String → Option α
  | [], _ => none
  | (name, value) :: rest, key => if name = key then some value else get? rest key

/-- The keys in order. -/
def keys (table : Table α) : List String :=
  table.map Prod.fst

/-- Writes a value under a key: in place if the key is there, at the end if it is new. -/
def insert : Table α → String → α → Table α
  | [], key, value => [(key, value)]
  | (name, old) :: rest, key, value =>
    if name = key then (name, value) :: rest else (name, old) :: insert rest key value

/-- Writes entries one after another. -/
def insertAll (table : Table α) : List (String × α) → Table α
  | [] => table
  | (key, value) :: entries => insertAll (insert table key value) entries

/-- The table that results from writing the entries one after another. -/
def ofList (entries : List (String × α)) : Table α :=
  insertAll [] entries

/-- The table without the entries of a key, the order of the others kept. -/
def erase (table : Table α) (key : String) : Table α :=
  table.filter fun entry => entry.1 ≠ key

/-- No key is found in an empty table. -/
@[simp] theorem get?_nil (key : String) : get? ([] : Table α) key = none := rfl

/-- The first entry answers for its key, and the rest for all other keys. -/
theorem get?_cons (name key : String) (value : α) (rest : Table α) :
    get? ((name, value) :: rest) key = if name = key then some value else get? rest key := rfl

/-- A written key has the new value and every other key has the old one. -/
theorem get?_insert (table : Table α) (key name : String) (value : α) :
    get? (insert table key value) name = if key = name then some value else get? table name := by
  induction table with
  | nil => rfl
  | cons entry rest ih =>
    obtain ⟨first, old⟩ := entry
    by_cases hkey : first = key
    · subst hkey
      simp only [insert, if_true, get?_cons]
      split <;> rfl
    · by_cases hname : first = name
      · subst hname
        simp [insert, get?_cons, hkey, Ne.symm hkey]
      · simp [insert, get?_cons, hkey, hname, ih]

/-- A key is absent exactly when no entry has it. -/
theorem get?_eq_none_iff {table : Table α} {key : String} :
    get? table key = none ↔ key ∉ keys table := by
  induction table with
  | nil => simp [keys]
  | cons entry rest ih =>
    obtain ⟨name, value⟩ := entry
    by_cases hname : name = key <;> simp_all [get?_cons, keys, eq_comm]

/-- A key is present exactly when a value is found under it. -/
theorem mem_keys_iff {table : Table α} {key : String} :
    key ∈ keys table ↔ ∃ value, get? table key = some value := by
  cases hvalue : get? table key with
  | none => simp [get?_eq_none_iff.mp hvalue]
  | some value =>
    have hmem : key ∈ keys table := by
      apply Decidable.byContradiction
      intro habsent
      rw [get?_eq_none_iff.mpr habsent] at hvalue
      cases hvalue
    simp [hmem]

/-- A value found under a key is an entry of the table. -/
theorem mem_of_get? {table : Table α} {key : String} {value : α}
    (h : get? table key = some value) : (key, value) ∈ table := by
  induction table with
  | nil => simp at h
  | cons entry rest ih =>
    obtain ⟨name, old⟩ := entry
    by_cases hname : name = key
    · simp_all [get?_cons]
    · simp only [get?_cons, if_neg hname] at h
      exact List.mem_cons_of_mem _ (ih h)

/-- In a table with distinct keys every entry is found under its key. -/
theorem get?_of_mem {table : Table α} {key : String} {value : α} (hkeys : (keys table).Nodup)
    (h : (key, value) ∈ table) : get? table key = some value := by
  induction table with
  | nil => simp at h
  | cons entry rest ih =>
    obtain ⟨name, old⟩ := entry
    obtain ⟨hname, hrest⟩ := List.nodup_cons.mp hkeys
    rcases List.mem_cons.mp h with heq | hmem
    · simp_all [get?_cons]
    · have hne : name ≠ key := by
        rintro rfl
        exact hname (List.mem_map.mpr ⟨_, hmem, rfl⟩)
      simpa [get?_cons, hne] using ih hrest hmem

/-- Writing a key adds it at the end exactly when it is new. -/
theorem keys_insert (table : Table α) (key : String) (value : α) :
    keys (insert table key value) =
      if key ∈ keys table then keys table else keys table ++ [key] := by
  induction table with
  | nil => simp [insert, keys]
  | cons entry rest ih =>
    obtain ⟨name, old⟩ := entry
    by_cases hname : name = key
    · simp [insert, keys, hname]
    · simp only [keys] at ih
      by_cases hkey : key ∈ rest.map Prod.fst <;>
        simp_all [insert, keys, eq_comm]

/-- Writing a key keeps the keys distinct. -/
theorem nodup_keys_insert {table : Table α} (h : (keys table).Nodup) (key : String) (value : α) :
    (keys (insert table key value)).Nodup := by
  rw [keys_insert]
  split
  · exact h
  · next hkey =>
    rw [List.nodup_append]
    refine ⟨h, by simp, ?_⟩
    intro name hname other hother heq
    simp only [List.mem_singleton] at hother
    subst heq hother
    exact hkey hname

/-- Writing a new key puts its entry at the end. -/
theorem insert_of_notMem {table : Table α} {key : String} (h : key ∉ keys table) (value : α) :
    insert table key value = table ++ [(key, value)] := by
  induction table with
  | nil => rfl
  | cons entry rest ih =>
    obtain ⟨name, old⟩ := entry
    simp only [keys, List.map_cons, List.mem_cons, not_or] at h
    simp [insert, Ne.symm h.1, ih h.2]

/-- Writing over a value changes nothing exactly if it is written again. -/
theorem insert_eq_self_iff {table : Table α} {key : String} {old value : α}
    (h : get? table key = some old) : insert table key value = table ↔ value = old := by
  induction table with
  | nil => cases h
  | cons entry rest ih =>
    obtain ⟨name, first⟩ := entry
    by_cases hname : name = key
    · simp_all [insert, get?_cons]
    · rw [get?_cons, if_neg hname] at h
      simp [insert, hname, ih h]

/-- Writing entries with new and distinct keys puts them at the end. -/
theorem insertAll_of_nodup {table : Table α} {entries : List (String × α)}
    (h : (keys (table ++ entries)).Nodup) : insertAll table entries = table ++ entries := by
  induction entries generalizing table with
  | nil => simp [insertAll]
  | cons entry entries ih =>
    obtain ⟨key, value⟩ := entry
    have hnew : key ∉ keys table := by
      simp only [keys, List.map_append, List.map_cons] at h
      exact fun hmem => (List.nodup_append.mp h).2.2 key hmem key (by simp) rfl
    rw [insertAll, insert_of_notMem hnew, ih (by simpa using h)]
    simp

/-- Entries with distinct keys are a table as they stand. -/
theorem ofList_of_nodup {entries : List (String × α)} (h : (keys entries).Nodup) :
    ofList entries = entries :=
  insertAll_of_nodup h

/-- Writing entries keeps the keys distinct. -/
theorem nodup_keys_insertAll {table : Table α} (h : (keys table).Nodup)
    (entries : List (String × α)) : (keys (insertAll table entries)).Nodup := by
  induction entries generalizing table with
  | nil => exact h
  | cons entry entries ih => exact ih (nodup_keys_insert h _ _)

/-- The keys of a written list of entries are distinct. -/
theorem nodup_keys_ofList (entries : List (String × α)) : (keys (ofList entries)).Nodup :=
  nodup_keys_insertAll (by simp [keys]) entries

end Table

end LinkedSchema
