import LinkedSchema.Proofs.Context.Content

/-!
# The bindings of the vocabulary

The scope of the root binds the short name of the vocabulary, and the keyword for names without a
prefix, to the base IRI. The scopes inside it inherit these bindings, but for a scope that has the
term itself. Terms collide within one scope only, so a scope has the term of a binding wherever it
is registered for the type of the scope: as the identifier of a field of this name, or as the class
identifier of a type of this name. A prefixed name therefore means the same in every scope exactly
if nothing else is registered under the prefix for any of the types with a scope.
-/

namespace LinkedSchema

namespace Scope

variable {scope inner : Scope} {type term id : String} {types : List String}

/-- What a term stands for at the end of a path of types. The innermost scope on the path that has
the term decides, and the path counts as far as it leads. -/
def resolve? (scope : Scope) (term : String) : List String → Option String
  | [] => scope.id? term
  | type :: types =>
    ((scope.inner? type).bind fun inner => inner.resolve? term types).or (scope.id? term)

/-- A term of the scope at the end of a path stands there for what it stands for in that scope. -/
theorem resolve?_of_follow (hfollow : scope.follow types = some inner)
    (hid : inner.id? term = some id) : scope.resolve? term types = some id := by
  induction types generalizing scope with
  | nil =>
    obtain rfl : scope = inner := Option.some.inj hfollow
    exact hid
  | cons type types ih =>
    obtain ⟨middle, hmiddle, hrest⟩ := Option.bind_eq_some_iff.mp hfollow
    rw [resolve?, hmiddle, Option.bind_some, ih hrest, Option.some_or]

/-- What a term stands for at the end of a path is said by the scope in which the path begins or by
one that occurs in it. -/
theorem id?_of_resolve? (h : scope.resolve? term types = some id) :
    scope.id? term = some id ∨
      ∃ type, ∃ inner : Scope, inner.Occurs type scope ∧ inner.id? term = some id := by
  induction types generalizing scope with
  | nil => exact .inl h
  | cons type types ih =>
    rw [resolve?, Option.or_eq_some_iff] at h
    rcases h with h | ⟨-, h⟩
    · obtain ⟨middle, hmiddle, hrest⟩ := Option.bind_eq_some_iff.mp h
      obtain ⟨_, hterm⟩ := inner?_eq_some_iff.mp hmiddle
      rcases ih hrest with hstands | ⟨other, inner, hoccurs, hstands⟩
      · exact .inr ⟨type, middle, .here hterm, hstands⟩
      · exact .inr ⟨other, inner, .inside hterm hoccurs, hstands⟩
    · exact .inl h

/-- A term of the scope in which a path begins stands for something at the end of the path. -/
theorem exists_resolve? (h : scope.id? term = some id) (types : List String) :
    ∃ other, scope.resolve? term types = some other := by
  cases types with
  | nil => exact ⟨id, h⟩
  | cons type types =>
    rw [← Option.isSome_iff_exists, resolve?, Option.isSome_or, h, Option.isSome_some, Bool.or_true]

/-- A path leads to every scope that occurs in a scope. -/
theorem exists_follow_of_occurs (h : inner.Occurs type scope) :
    ∃ types, scope.follow types = some inner := by
  induction h with
  | @here scope id hterm =>
    have hinner := inner?_eq_some_iff.mpr ⟨id, hterm⟩
    exact ⟨[type], by simp [follow, hinner]⟩
  | @inside scope middle term id hterm _ ih =>
    obtain ⟨types, htypes⟩ := ih
    have hmiddle := inner?_eq_some_iff.mpr ⟨id, hterm⟩
    exact ⟨term :: types, by rw [follow, hmiddle, Option.bind_some, htypes]⟩

/-- A term of a scope stands for the same at the end of every path exactly if no scope inside says
that it stands for something else. -/
theorem resolve?_eq_iff (h : scope.id? term = some id) :
    (∀ types, scope.resolve? term types = some id) ↔
      ∀ type, ∀ inner : Scope, inner.Occurs type scope →
        ∀ other, inner.id? term = some other → other = id := by
  constructor
  · intro hsame type inner hoccurs other hother
    obtain ⟨types, hfollow⟩ := exists_follow_of_occurs hoccurs
    exact Option.some.inj ((resolve?_of_follow hfollow hother).symm.trans (hsame types))
  · intro hinside types
    obtain ⟨other, hother⟩ := exists_resolve? h types
    rcases id?_of_resolve? hother with hstands | ⟨type, inner, hoccurs, hstands⟩
    · rw [hother, ← hstands, h]
    · rw [hother, hinside type inner hoccurs other hstands]

end Scope

/-- A type other than the root, to which references lead from the root through types with class
identifiers, has an identifier registered for a term. -/
def Catalog.RegistersInside (catalog : Catalog) (registry : Registry)
    (root type term id : String) : Prop :=
  type ≠ root ∧ Relation.ReflTransGen (catalog.RefersToClass registry) root type ∧
    catalog.Registers registry type term id

namespace Context

variable {tree : SchemaTree} {registry annotations : Registry} {vocabulary : Vocabulary}
  {context : Scope} {memo : ContextMemo} {catalog : Catalog} {root type term id : String}

/-- The scope of a type inside a context says that a term stands for an identifier exactly if this
is registered for the type. -/
theorem Accounted.id?_inside_iff (h : Accounted tree registry vocabulary context memo)
    (hmirrors : tree.Mirrors catalog annotations root) :
    (∃ inner : Scope, inner.Occurs type context ∧ inner.id? term = some id) ↔
      catalog.RegistersInside registry root type term id := by
  have hstands : ∀ inner : Scope, inner.Occurs type context → type ≠ root →
      (inner.id? term = some id ↔ catalog.Registers registry type term id) := by
    intro inner hoccurs hne
    have hkept := h.get?_of_occurs h.root hoccurs
    rw [registers_iff hmirrors (h.reaches_of_kept hmirrors hkept), h.id?_iff hkept, Fixes,
      hmirrors.root_name]
    simp [hne]
  constructor
  · rintro ⟨inner, hoccurs, hid⟩
    obtain ⟨hne, -, hleads, -⟩ := (h.occurs_iff hmirrors).mp ⟨inner, hoccurs⟩
    exact ⟨hne, hleads, (hstands inner hoccurs hne).mp hid⟩
  · rintro ⟨hne, hleads, hregisters⟩
    obtain ⟨-, -, -, hclass⟩ := (Relation.ReflTransGen.cases_tail hleads).resolve_left hne
    obtain ⟨inner, hoccurs⟩ :=
      (h.occurs_iff hmirrors).mpr ⟨hne, hclass, hleads, term, id, hregisters⟩
    exact ⟨inner, hoccurs, (hstands inner hoccurs hne).mpr hregisters⟩

/-- The scope of the root binds the short name of the vocabulary and the keyword for names without a
prefix. A scope inside has such a term exactly where it is registered for the type of the scope, and
says then what is registered. So no scope inside has it exactly if it is registered for none of
these types, and it stands for the base IRI all over the context exactly if nothing else is
registered for it. -/
theorem bindings_of_build (htree : catalog.introspect annotations root = .ok tree)
    (hbuild : build tree registry vocabulary = .ok context) (hbinds : vocabulary.Binds term) :
    context.get? term = some (.iri vocabulary.iri) ∧
      (∀ type id, (∃ inner : Scope, inner.Occurs type context ∧ inner.id? term = some id) ↔
        catalog.RegistersInside registry root type term id) ∧
      ((∀ type, ∀ inner : Scope, inner.Occurs type context → term ∉ inner.terms) ↔
        ∀ type id, ¬ catalog.RegistersInside registry root type term id) ∧
      ((∀ types, context.resolve? term types = some vocabulary.iri) ↔
        ∀ type id, catalog.RegistersInside registry root type term id → id = vocabulary.iri) := by
  have hmirrors := SchemaTree.mirrors_of_introspect htree
  obtain ⟨memo, haccounted⟩ := exists_accounted_of_build hmirrors.get?_root hbuild
  have hroot : context.get? term = some (.iri vocabulary.iri) := by
    apply haccounted.introduced
    rcases hbinds with rfl | rfl
    · exact .keyword
    · exact .shortName
  have hinside : ∀ type id, (∃ inner : Scope, inner.Occurs type context ∧
      inner.id? term = some id) ↔ catalog.RegistersInside registry root type term id :=
    fun type id => haccounted.id?_inside_iff hmirrors
  refine ⟨hroot, hinside, ?_, ?_⟩
  · constructor
    · intro hnone type id hregisters
      obtain ⟨inner, hoccurs, hid⟩ := (hinside type id).mpr hregisters
      exact hnone type inner hoccurs (Scope.mem_terms_iff.mpr ⟨id, hid⟩)
    · intro hnone type inner hoccurs hmem
      obtain ⟨id, hid⟩ := Scope.mem_terms_iff.mp hmem
      exact hnone type id ((hinside type id).mp ⟨inner, hoccurs, hid⟩)
  · have hid : context.id? term = some vocabulary.iri :=
      Scope.id?_eq_some_iff.mpr ⟨_, hroot, rfl⟩
    rw [Scope.resolve?_eq_iff hid]
    constructor
    · intro hsame type id hregisters
      obtain ⟨inner, hoccurs, hid⟩ := (hinside type id).mpr hregisters
      exact hsame type inner hoccurs id hid
    · intro hsame type inner hoccurs id hid
      exact hsame type id ((hinside type id).mp ⟨inner, hoccurs, hid⟩)

/-- How far a turn goes clockwise, under the name that is also the default short name. -/
def clockwise : FieldDecl where
  name := "cw"
  kind := .scalar .number

/-- A movement with its turns. -/
def turningMovement : Catalog :=
  .ofModels [
    { name := "Movement", fields := [
      { name := "turns", kind := .collection (.reference "Turn") }] },
    { name := "Turn", fields := [clockwise] }]

/-- A class identifier for turns, and an identifier for their field. -/
def turnRegistry : Registry :=
  (Registry.empty.putClass "Turn" "cw:Turn").putField "Turn" "cw" { id := some "cw:clockwise" }

/-- Inside a movement the field of its turns is registered under the term of the vocabulary. -/
theorem registersInside_turningMovement :
    turningMovement.RegistersInside turnRegistry "Movement" "Turn" "cw" "cw:clockwise" := by
  have hturns : turningMovement.Refers "Movement" "Turn" :=
    ⟨_, by cbv, { name := "turns", kind := .collection (.reference "Turn") }, by simp,
      .collection .reference⟩
  have hclockwise : turningMovement.Registers turnRegistry "Turn" clockwise.name "cw:clockwise" :=
    .field (by cbv) List.mem_cons_self (by cbv)
  exact ⟨by decide, .single ⟨hturns, "cw:Turn", by cbv⟩, hclockwise⟩

/-- The term of the vocabulary has its own meaning at the top and that of the field inside the scope
of the turns. -/
theorem bindings_of_build_turningMovement :
    ∃ tree context, turningMovement.introspect turnRegistry "Movement" = .ok tree ∧
      build tree turnRegistry {} = .ok context ∧ ({} : Vocabulary).Binds "cw" ∧
      context.get? "cw" = some (.iri "https://w3id.org/cw/") ∧
      (∃ inner : Scope, inner.Occurs "Turn" context ∧ inner.id? "cw" = some "cw:clockwise") ∧
      ¬ ∀ types, context.resolve? "cw" types = some "https://w3id.org/cw/" := by
  have hok : ∃ tree context, turningMovement.introspect turnRegistry "Movement" = .ok tree ∧
      build tree turnRegistry {} = .ok context := ⟨_, _, by cbv, by cbv⟩
  obtain ⟨tree, context, htree, hbuild⟩ := hok
  have hbinds : ({} : Vocabulary).Binds "cw" := .inr rfl
  obtain ⟨hroot, hinside, -, hsame⟩ := bindings_of_build htree hbuild hbinds
  refine ⟨tree, context, htree, hbuild, hbinds, hroot,
    (hinside _ _).mpr registersInside_turningMovement, ?_⟩
  intro hbase
  have heq := hsame.mp hbase "Turn" "cw:clockwise" registersInside_turningMovement
  revert heq
  decide

/-- The short name of the vocabulary is bound again in a scope inside the scope of the root. -/
theorem binding_redefined :
    ¬ ∀ (catalog : Catalog) (registry : Registry) (vocabulary : Vocabulary) (root : String)
      (tree : SchemaTree) (context : Scope), catalog.introspect registry root = .ok tree →
      build tree registry vocabulary = .ok context →
      ∀ type, ∀ inner : Scope, inner.Occurs type context →
        "@vocab" ∉ inner.terms ∧ vocabulary.shortName ∉ inner.terms := by
  intro hclaim
  obtain ⟨-, hnone⟩ := hclaim turningMovement turnRegistry {} "Movement" _ _ (by cbv) (by cbv)
    "Turn" [("cw", .iri "cw:clockwise")] (.here rfl)
  revert hnone
  decide

end Context

end LinkedSchema
