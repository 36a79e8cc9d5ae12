import LinkedSchema.Proofs.Context.Accounted
import LinkedSchema.Proofs.Context.Run
import Mathlib

/-!
# How a context nests

The scopes in a context are those that were kept for their types, each type with one. So no type has
its scope inside its own, and the root, for which nothing is kept, has no scope in the context. The
scopes that lead to one another are therefore of different types, none of them the root.
-/

namespace LinkedSchema

namespace SchemaTree

variable {tree : SchemaTree}

/-- A type with a definition is nested unless it is the root. -/
theorem mem_nested_names_of_get? {type : String} {definition : TypeDefinition}
    (h : tree.get? type = some definition) (hroot : type ≠ tree.root.name) :
    type ∈ tree.nested.names :=
  (List.mem_cons.mp (mem_names_of_get? h)).resolve_left hroot

/-- Different nested types are no more than there are. -/
theorem length_le_of_nodup {types : List String} (hnodup : types.Nodup)
    (hnested : types ⊆ tree.nested.names) : types.length ≤ tree.nested.size := by
  have hsize : tree.nested.names.length = tree.nested.size := List.length_map _
  exact hsize ▸ (hnodup.subperm hnested).length_le

end SchemaTree

namespace Scope

variable {scope deeper : Scope} {types : List String}

/-- What lies inside a scope that occurs in another lies inside there too. -/
theorem Encloses.of_occurs {type outer inner : String} {middle : Scope}
    (h : middle.Encloses outer inner) (hmiddle : middle.Occurs type scope) :
    scope.Encloses outer inner := by
  obtain ⟨around, haround, hinside⟩ := h
  exact ⟨around, hmiddle.trans haround, hinside⟩

/-- A path leads on from the scope of its first type, which occurs. -/
theorem exists_occurs_of_follow_cons {type : String}
    (h : scope.follow (type :: types) = some deeper) :
    ∃ inner : Scope, inner.Occurs type scope ∧ inner.follow types = some deeper := by
  obtain ⟨inner, hinner, hfollow⟩ := Option.bind_eq_some_iff.mp h
  obtain ⟨id, hterm⟩ := inner?_eq_some_iff.mp hinner
  exact ⟨inner, .here hterm, hfollow⟩

/-- The scopes on a path occur in the scope in which it begins. -/
theorem exists_occurs_of_follow (h : scope.follow types = some deeper) :
    ∀ type ∈ types, ∃ inner : Scope, inner.Occurs type scope := by
  induction types generalizing scope with
  | nil => simp
  | cons first rest ih =>
    obtain ⟨middle, hmiddle, hrest⟩ := exists_occurs_of_follow_cons h
    intro type htype
    rcases List.mem_cons.mp htype with rfl | htype
    · exact ⟨middle, hmiddle⟩
    · obtain ⟨inner, hinner⟩ := ih hrest type htype
      exact ⟨inner, hmiddle.trans hinner⟩

/-- Where no type has its scope inside its own, a path leads through different types. -/
theorem nodup_of_follow (hself : ∀ type, ¬ scope.Encloses type type)
    (h : scope.follow types = some deeper) : types.Nodup := by
  induction types generalizing scope with
  | nil => exact List.nodup_nil
  | cons first rest ih =>
    obtain ⟨middle, hmiddle, hrest⟩ := exists_occurs_of_follow_cons h
    refine List.nodup_cons.mpr ⟨?_, ih (fun type hinside => ?_) hrest⟩
    · intro hmem
      obtain ⟨inner, hinner⟩ := exists_occurs_of_follow hrest first hmem
      exact hself first ⟨middle, hmiddle, inner, hinner⟩
    · exact hself type (hinside.of_occurs hmiddle)

end Scope

namespace Context

variable {tree : SchemaTree} {registry : Registry} {vocabulary : Vocabulary} {active : List String}
  {claims : List Claim} {start scope : Scope} {memo grown : ContextMemo}

namespace Filled

/-- A scope that occurs in a filled scope is the one that is kept for its type. -/
theorem get?_of_occurs (h : Filled tree registry active claims start memo scope grown)
    (hflat : start.IsFlat) {type : String} {inner : Scope} (hoccurs : inner.Occurs type scope) :
    grown.scopes.get? type = some inner := by
  have hkept : ∀ {term id middle}, scope.get? term = some (.scoped id middle) →
      grown.scopes.get? term = some middle := by
    intro term id middle hterm
    rcases h.nests term id middle hterm with hstart | ⟨hkept, -⟩
    · exact absurd hstart (hflat term id middle)
    · exact hkept
  cases hoccurs with
  | here hterm => exact hkept hterm
  | inside hterm hinside => exact h.sound.get?_of_occurs (hkept hterm) hinside

/-- No type has its scope inside its own in a filled scope. -/
theorem not_encloses_self (h : Filled tree registry active claims start memo scope grown)
    (hflat : start.IsFlat) (type : String) : ¬ scope.Encloses type type := by
  rintro ⟨around, haround, inside, hinside⟩
  -- Both scopes are the one that is kept for the type, but the inner one is smaller.
  have houter := h.get?_of_occurs hflat haround
  have hinner := h.get?_of_occurs hflat (haround.trans hinside)
  obtain rfl : around = inside := Option.some.inj (houter.symm.trans hinner)
  exact absurd hinside.sizeOf_lt (Nat.lt_irrefl _)

/-- A type that is active, and has no scope before, has none inside the filled scope. -/
theorem not_occurs_active (h : Filled tree registry active claims start memo scope grown)
    (hflat : start.IsFlat) {type : String} (hactive : type ∈ active)
    (hnone : memo.scopes.get? type = none) {inner : Scope} : ¬ inner.Occurs type scope := by
  intro hoccurs
  have hkept := h.get?_of_occurs hflat hoccurs
  rw [h.idle type hactive, hnone] at hkept
  cases hkept

end Filled

/-- The runs that build a context, each with the scopes on which it starts and with its outcome.
What is introduced for the root comes first, and while the scope of the root is filled the root is
active. -/
inductive Builds (tree : SchemaTree) (registry : Registry) (vocabulary : Vocabulary) :
    List Start → Except (Interruption ContextError ContextMemo) (Scope × ContextMemo) → Prop
  | refuse {interruption : Interruption ContextError ContextMemo} :
    rootScope registry vocabulary tree.root.name = .error interruption →
    Builds tree registry vocabulary [] (.error interruption)
  | fill {start : Scope} {starts : List Start}
    {outcome : Except (Interruption ContextError ContextMemo) (Scope × ContextMemo)} :
    rootScope registry vocabulary tree.root.name = .ok start →
    Run tree registry [tree.root.name] tree.root.name (tree.root.claims registry) start {} starts
      outcome →
    Builds tree registry vocabulary starts outcome

/-- Every building of a context comes to an end. -/
theorem exists_builds (tree : SchemaTree) (registry : Registry) (vocabulary : Vocabulary) :
    ∃ starts, Builds tree registry vocabulary starts (buildWithMemo tree registry vocabulary) := by
  unfold buildWithMemo
  cases hstart : rootScope registry vocabulary tree.root.name with
  | error interruption => exact ⟨[], .refuse hstart⟩
  | ok start =>
    obtain ⟨starts, hrun⟩ := exists_run tree registry [tree.root.name] tree.root.name
      (tree.root.claims registry) start {}
    exact ⟨starts, .fill hstart hrun⟩

namespace Builds

variable {starts : List Start}
  {outcome : Except (Interruption ContextError ContextMemo) (Scope × ContextMemo)}

/-- There is one outcome. -/
theorem eq_buildWithMemo (h : Builds tree registry vocabulary starts outcome) :
    outcome = buildWithMemo tree registry vocabulary := by
  unfold buildWithMemo
  cases h with
  | refuse hstart =>
    rw [hstart]
    rfl
  | fill hstart hrun =>
    rw [hstart, hrun.eq_fill]
    rfl

/-- Building a context starts on the scopes of different types. -/
theorem nodup (h : Builds tree registry vocabulary starts outcome) :
    (starts.map (·.type)).Nodup := by
  cases h with
  | refuse => exact List.nodup_nil
  | fill _ hrun => exact hrun.nodup

/-- Building a context starts on the scope of a nested type only, and only while the type is neither
active nor kept. -/
theorem fresh (h : Builds tree registry vocabulary starts outcome) :
    ∀ start ∈ starts, start.type ∈ tree.nested.names ∧ start.type ∉ start.active ∧
      start.type ∉ start.memo.scopes.names := by
  cases h with
  | refuse => simp
  | fill _ hrun =>
    intro start hstart
    obtain ⟨hactive, -, hwanting, definition, hdefinition⟩ := hrun.fresh start hstart
    have hroot : start.type ≠ tree.root.name := by
      intro heq
      exact hwanting.idle (heq ▸ hactive (List.mem_singleton_self _))
    exact ⟨SchemaTree.mem_nested_names_of_get? hdefinition hroot, hwanting.idle,
      hwanting.notMem_names⟩

end Builds

/-- The building of a context comes to an end, having started on the scope of each nested type at
most once, and never while the type was active or its scope finished. In the context no type has its
scope inside its own, the root has none, and scopes lead no deeper than there are nested types. -/
theorem build_ends_nesting_no_type_in_itself (tree : SchemaTree) (registry : Registry)
    (vocabulary : Vocabulary) :
    (∃ starts, Builds tree registry vocabulary starts
      (buildWithMemo tree registry vocabulary)) ∧
    (∀ starts outcome, Builds tree registry vocabulary starts outcome →
      outcome = buildWithMemo tree registry vocabulary ∧ (starts.map (·.type)).Nodup ∧
      ∀ start ∈ starts, start.type ∈ tree.nested.names ∧ start.type ∉ start.active ∧
        start.type ∉ start.memo.scopes.names) ∧
    ∀ context, build tree registry vocabulary = .ok context →
      (∀ type, ¬ context.Encloses type type) ∧
      (∀ inner : Scope, ¬ inner.Occurs tree.root.name context) ∧
      ∀ types deeper, context.follow types = some deeper →
        types.length ≤ tree.nested.size := by
  refine ⟨exists_builds tree registry vocabulary,
    fun starts outcome h => ⟨h.eq_buildWithMemo, h.nodup, h.fresh⟩, ?_⟩
  intro context hbuild
  obtain ⟨start, memo, hstart, hfill⟩ := exists_fill_of_build hbuild
  have hflat := isFlat_of_rootScope hstart
  have hfilled := filled_of_fill hfill (sound_empty _)
  have htraced := (traces_of_fill hfill traced_empty (nodup_terms_of_rootScope hstart)).1
  have hself := hfilled.not_encloses_self hflat
  have hroot : ∀ inner : Scope, ¬ inner.Occurs tree.root.name context := fun inner =>
    hfilled.not_occurs_active hflat (List.mem_singleton_self _) rfl
  refine ⟨hself, hroot, ?_⟩
  intro types deeper hfollow
  refine SchemaTree.length_le_of_nodup (Scope.nodup_of_follow hself hfollow) ?_
  intro type htype
  obtain ⟨inner, hoccurs⟩ := Scope.exists_occurs_of_follow hfollow type htype
  obtain ⟨definition, hdefinition, -⟩ := htraced type inner (hfilled.get?_of_occurs hflat hoccurs)
  have hne : type ≠ tree.root.name := fun heq => hroot inner (heq ▸ hoccurs)
  exact SchemaTree.mem_nested_names_of_get? hdefinition hne

/-- Two types that refer to each other, to themselves and to the root, under keys that are not the
names of their definitions. -/
def crossedTypes : SchemaTree where
  root := { name := "Root", fields := [
    { name := "first", required := true, kind := .reference "left" }] }
  nested := .ofList [
    ("left", { name := "Left", fields := [
      { name := "across", required := true, kind := .reference "right" },
      { name := "again", required := true, kind := .reference "left" }] }),
    ("right", { name := "Right", fields := [
      { name := "back", required := true, kind := .reference "left" },
      { name := "top", required := true, kind := .reference "Root" }] })]

/-- Class identifiers for the root and both keys, and an identifier for one field. -/
def crossedRegistry : Registry :=
  (((Registry.empty.putClass "Root" "cw:Root").putClass "left" "cw:Left").putClass
    "right" "cw:Right").putField "Left" "again" { id := some "cw:again" }

/-- Two scopes inside each other are as deep as the context gets, with the outer type and the root
as plain terms in the inner scope. -/
theorem build_ends_nesting_no_type_in_itself_crossedTypes :
    ∃ context deeper, build crossedTypes crossedRegistry {} = .ok context ∧
      context.follow ["left", "right"] = some deeper ∧
      deeper = [("left", .iri "cw:Left"), ("Root", .iri "cw:Root")] ∧
      (∀ type, ¬ context.Encloses type type) ∧
      ["left", "right"].length ≤ crossedTypes.nested.size := by
  obtain ⟨-, -, hnests⟩ := build_ends_nesting_no_type_in_itself crossedTypes crossedRegistry {}
  have hok : (build crossedTypes crossedRegistry {}).isOk = true := by cbv
  obtain ⟨context, hbuild⟩ := Outcome.exists_of_isOk hok
  obtain ⟨hself, -, hdepth⟩ := hnests context hbuild
  have hfollow : (build crossedTypes crossedRegistry {}).toOption.bind
      (Scope.follow · ["left", "right"]) =
        some [("left", .iri "cw:Left"), ("Root", .iri "cw:Root")] := by cbv
  rw [hbuild] at hfollow
  exact ⟨context, _, hbuild, hfollow, rfl, hself, hdepth _ _ hfollow⟩

end Context

end LinkedSchema
