/-!
# Names that remain

A search that never starts on a name twice ends because each start leaves fewer names to start on.
-/

namespace LinkedSchema

/-- The number of names that are not used yet. -/
def remaining (names used : List String) : Nat :=
  (names.filter fun name => name ∉ used).length

/-- Using one more name leaves fewer. -/
theorem remaining_cons_lt {names used : List String} {name : String} (hname : name ∈ names)
    (hused : name ∉ used) : remaining names (name :: used) < remaining names used := by
  have hmem : name ∈ names.filter fun name => name ∉ used := by
    simpa using ⟨hname, hused⟩
  have hsub : names.filter (fun other => other ∉ name :: used) =
      (names.filter fun other => other ∉ used).filter (· ≠ name) := by
    rw [List.filter_filter]
    congr 1
    funext other
    simp
  unfold remaining
  rw [hsub]
  refine Nat.lt_of_le_of_ne (List.length_filter_le _ _) fun heq => ?_
  have := List.length_filter_eq_length_iff.mp heq _ hmem
  simp at this

end LinkedSchema
