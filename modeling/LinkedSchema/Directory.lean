import LinkedSchema.Table

/-!
# Directories

A directory keeps one value per name, sorted by name in the order of code points.
-/

namespace LinkedSchema

/-- Values under distinct names, in ascending order of the names. -/
structure Directory (α : Type) where
  entries : List (String × α)
  sorted : entries.Pairwise fun a b => a.1 < b.1
  deriving DecidableEq

namespace Directory

variable {α β : Type}

/-- The directory that holds nothing. -/
def empty : Directory α :=
  ⟨[], .nil⟩

instance : EmptyCollection (Directory α) := ⟨empty⟩

instance : Inhabited (Directory α) := ⟨empty⟩

/-- Puts an entry at its place among sorted entries, over an entry of the same name. -/
def insertSorted (name : String) (value : α) : List (String × α) → List (String × α)
  | [] => [(name, value)]
  | (first, old) :: rest =>
    if name < first then (name, value) :: (first, old) :: rest
    else if name = first then (name, value) :: rest
    else (first, old) :: insertSorted name value rest

/-- Putting an entry in brings in no other entry. -/
theorem mem_insertSorted {name : String} {value : α} {entries : List (String × α)}
    {entry : String × α} (h : entry ∈ insertSorted name value entries) :
    entry = (name, value) ∨ entry ∈ entries := by
  induction entries with
  | nil => simpa [insertSorted] using h
  | cons first rest ih =>
    obtain ⟨first, old⟩ := first
    simp only [insertSorted] at h
    split at h
    · simpa using h
    · split at h
      · rcases List.mem_cons.mp h with h | h
        · exact .inl h
        · exact .inr (List.mem_cons_of_mem _ h)
      · rcases List.mem_cons.mp h with h | h
        · exact .inr (h ▸ List.mem_cons_self)
        · exact (ih h).imp id (List.mem_cons_of_mem _)

/-- Putting an entry in keeps the entries sorted. -/
theorem pairwise_insertSorted {entries : List (String × α)}
    (h : entries.Pairwise fun a b => a.1 < b.1) (name : String) (value : α) :
    (insertSorted name value entries).Pairwise fun a b => a.1 < b.1 := by
  induction entries with
  | nil => simp [insertSorted]
  | cons first rest ih =>
    obtain ⟨first, old⟩ := first
    obtain ⟨hfirst, hrest⟩ := List.pairwise_cons.mp h
    simp only [insertSorted]
    split
    · next hlt =>
      refine List.pairwise_cons.mpr ⟨?_, h⟩
      intro entry hentry
      rcases List.mem_cons.mp hentry with rfl | hentry
      · exact hlt
      · exact String.lt_trans hlt (hfirst _ hentry)
    · next hlt =>
      split
      · next heq =>
        subst heq
        exact List.pairwise_cons.mpr ⟨hfirst, hrest⟩
      · next hne =>
        refine List.pairwise_cons.mpr ⟨?_, ih hrest⟩
        intro entry hentry
        rcases mem_insertSorted hentry with rfl | hentry
        · exact Std.lt_of_le_of_ne hlt (Ne.symm hne)
        · exact hfirst _ hentry

/-- Puts a value under a name, over the value that was there. -/
def insert (directory : Directory α) (name : String) (value : α) : Directory α :=
  ⟨insertSorted name value directory.entries, pairwise_insertSorted directory.sorted name value⟩

/-- The directory of a list of entries; of several under one name the last counts. -/
def ofList (entries : List (String × α)) : Directory α :=
  entries.foldl (fun directory entry => directory.insert entry.1 entry.2) ∅

/-- The value under a name. -/
def get? (directory : Directory α) (name : String) : Option α :=
  Table.get? directory.entries name

/-- The names in ascending order. -/
def names (directory : Directory α) : List String :=
  directory.entries.map Prod.fst

/-- The number of names. -/
def size (directory : Directory α) : Nat :=
  directory.entries.length

/-- The values in the order of their names. -/
def values (directory : Directory α) : List α :=
  directory.entries.map Prod.snd

/-- The directory without a name. -/
def erase (directory : Directory α) (name : String) : Directory α :=
  ⟨directory.entries.filter fun entry => entry.1 ≠ name, directory.sorted.filter _⟩

/-- No name is found in the empty directory. -/
@[simp] theorem get?_empty (name : String) : (∅ : Directory α).get? name = none := rfl

/-- A name that was put in has the new value and every other name has the old one. -/
theorem get?_insert (directory : Directory α) (name other : String) (value : α) :
    (directory.insert name value).get? other =
      if name = other then some value else directory.get? other := by
  obtain ⟨entries, sorted⟩ := directory
  simp only [get?, insert]
  induction entries with
  | nil => rfl
  | cons first rest ih =>
    obtain ⟨first, old⟩ := first
    simp only [insertSorted]
    split
    · rfl
    · split
      · next heq =>
        subst heq
        by_cases hother : name = other <;> simp [Table.get?_cons, hother]
      · next hne =>
        have ih := ih (List.pairwise_cons.mp sorted).2
        by_cases hfirst : first = other
        · subst hfirst
          simp [Table.get?_cons, hne]
        · simp [Table.get?_cons, hfirst, ih]

/-- A directory of entries with distinct names holds them. -/
theorem get?_ofList {entries : List (String × α)}
    (h : (entries.map Prod.fst).Nodup) (name : String) :
    (ofList entries).get? name = Table.get? entries name := by
  have hfold : ∀ start : Directory α, (entries.foldl
      (fun directory entry => directory.insert entry.1 entry.2) start).get? name =
        (Table.get? entries name).or (start.get? name) := by
    induction entries with
    | nil => exact fun start => rfl
    | cons entry entries ih =>
      intro start
      obtain ⟨first, value⟩ := entry
      obtain ⟨hfirst, hrest⟩ := List.nodup_cons.mp h
      rw [List.foldl_cons, ih hrest, get?_insert, Table.get?_cons]
      by_cases heq : first = name
      · subst heq
        have habsent : Table.get? entries first = none := Table.get?_eq_none_iff.mpr hfirst
        simp [habsent]
      · simp [heq]
  rw [ofList, hfold, get?_empty, Option.or_none]

/-- A name is absent exactly when it is not among the names. -/
theorem get?_eq_none_iff {directory : Directory α} {name : String} :
    directory.get? name = none ↔ name ∉ directory.names :=
  Table.get?_eq_none_iff

/-- A name is present exactly when a value is found under it. -/
theorem mem_names_iff {directory : Directory α} {name : String} :
    name ∈ directory.names ↔ ∃ value, directory.get? name = some value := by
  rw [← Option.isSome_iff_exists, ← Option.ne_none_iff_isSome]
  exact ⟨fun hmem hnone => get?_eq_none_iff.mp hnone hmem,
    fun hsome => Decidable.byContradiction fun hmem => hsome (get?_eq_none_iff.mpr hmem)⟩

/-- The names are distinct. -/
theorem nodup_names (directory : Directory α) : directory.names.Nodup := by
  rw [names, List.Nodup, List.pairwise_map]
  refine directory.sorted.imp ?_
  intro a b hlt heq
  rw [heq] at hlt
  exact String.lt_irrefl _ hlt

/-- An entry is found under its name, and only what is found is an entry. -/
theorem mem_entries_iff {directory : Directory α} {name : String} {value : α} :
    (name, value) ∈ directory.entries ↔ directory.get? name = some value :=
  ⟨Table.get?_of_mem directory.nodup_names, Table.mem_of_get?⟩

/-- An erased name is absent and every other name keeps its value. -/
theorem get?_erase (directory : Directory α) (name other : String) :
    (directory.erase name).get? other = if name = other then none else directory.get? other := by
  obtain ⟨entries, sorted⟩ := directory
  simp only [get?, erase]
  clear sorted
  induction entries with
  | nil => simp
  | cons first rest ih =>
    obtain ⟨first, old⟩ := first
    by_cases hname : first = name
    · subst hname
      by_cases hother : first = other
      · simpa [Table.get?_cons, hother] using ih
      · simpa [Table.get?_cons, hother] using ih
    · by_cases hother : first = other
      · subst hother
        simp [Table.get?_cons, hname, Ne.symm hname]
      · simpa [Table.get?_cons, hname, hother] using ih

end Directory

end LinkedSchema
