import LinkedSchema.Proofs.Context.Complete
import Mathlib

/-!
# How identifiers are found along references

The scopes of a context can be followed along a chain of references. Each scope is built once and
stands unchanged wherever its type is referred to, so a type stays a plain term in it that was
active when it was built. Such a type has the scope inside its own, and this is the only way in
which a chain can fail to lead to the scope of its last type.
-/

namespace LinkedSchema

namespace Context

variable {tree : SchemaTree} {registry : Registry} {vocabulary : Vocabulary} {context : Scope}

namespace Complete

variable {memo : ContextMemo}

/-- A kept scope from which a chain goes on has terms. -/
theorem ne_nil_of_chain (h : Complete tree registry context memo) {type last name id : String}
    {types : List String} {scope : Scope} (hkept : memo.scopes.get? type = some scope)
    (hchain : (type :: types).IsChain (Links tree registry)) (hnodup : (type :: types).Nodup)
    (hlast : (type :: types).getLast? = some last)
    (hfield : Identifies tree registry last name id) : scope ≠ [] := by
  rintro rfl
  cases types with
  | nil =>
    obtain rfl : type = last := Option.some.inj hlast
    have hterm := h.get?_of_identifies hkept hfield
    cases hterm
  | cons target types =>
    have hlink := (List.isChain_cons_cons.mp hchain).1
    have hne : target ≠ type := by
      rintro rfl
      simp at hnodup
    obtain ⟨id, inner, -, hterm | ⟨hterm, -⟩⟩ := h.get?_of_links hkept hlink hne
    · cases hterm
    · cases hterm

/-- Where the next type of a chain has terms, its term leads to its scope exactly if the scope of
the type before does not lie inside it anywhere. -/
theorem inner?_of_links (h : Complete tree registry context memo) {type target : String}
    {scope : Scope} (hkept : memo.scopes.get? type = some scope)
    (hlink : Links tree registry type target) (hne : target ≠ type)
    (hroot : target ≠ tree.root.name)
    (hterms : ∀ inner, memo.scopes.get? target = some inner → inner ≠ []) :
    (∃ inner, memo.scopes.get? target = some inner ∧ scope.inner? target = some inner ∧
        ¬ context.Encloses target type) ∨
      scope.inner? target = none ∧ context.Encloses target type := by
  obtain ⟨id, inner, hinner, hterm | ⟨hterm, hinside⟩⟩ := h.get?_of_links hkept hlink hne
  · left
    rw [typeEntry_of_ne_nil (hterms inner hinner)] at hterm
    refine ⟨inner, hinner, Scope.inner?_eq_some_iff.mpr ⟨id, hterm⟩, ?_⟩
    rintro ⟨around, haround, inside, hinside⟩
    -- A scope inside the one to which its own term leads would be smaller than itself.
    have haroundKept := h.get?_of_occurs h.root haround
    have hinsideKept := h.get?_of_occurs haroundKept hinside
    obtain rfl : inner = around := Option.some.inj (hinner.symm.trans haroundKept)
    obtain rfl : scope = inside := Option.some.inj (hkept.symm.trans hinsideKept)
    have hdown := Scope.sizeOf_lt_of_get? hterm
    have hup := hinside.sizeOf_lt
    omega
  · right
    have hplain : scope.inner? target = none := by
      unfold Scope.inner?
      rw [hterm]
    exact ⟨hplain, inner, h.occurs target inner hinner hroot (hterms inner hinner), scope, hinside⟩

/-- Following a chain leads to the identifier of a field of its last type, exactly if no type of the
chain has its scope inside that of the next one. -/
theorem follow_iff (h : Complete tree registry context memo) {type last name id : String}
    {types : List String} {scope : Scope} (hkept : memo.scopes.get? type = some scope)
    (hchain : (type :: types).IsChain (Links tree registry)) (hnodup : (type :: types).Nodup)
    (hroot : tree.root.name ∉ types) (hlast : (type :: types).getLast? = some last)
    (hfield : Identifies tree registry last name id) :
    (∃ found, scope.follow types = some found ∧ found.id? name = some id) ↔
      (type :: types).IsChain fun type target => ¬ context.Encloses target type := by
  induction types generalizing type scope with
  | nil =>
    obtain rfl : type = last := Option.some.inj hlast
    have hterm := h.get?_of_identifies hkept hfield
    have hid : scope.id? name = some id := by rw [Scope.id?, hterm]; rfl
    exact ⟨fun _ => .singleton type, fun _ => ⟨scope, rfl, hid⟩⟩
  | cons target types ih =>
    obtain ⟨hlink, hrest⟩ := List.isChain_cons_cons.mp hchain
    obtain ⟨hfirst, hdistinct⟩ := List.nodup_cons.mp hnodup
    rw [List.mem_cons, not_or] at hroot
    obtain ⟨htarget, houtside⟩ := hroot
    have hne : target ≠ type := fun heq => hfirst (heq ▸ List.mem_cons_self)
    rw [List.getLast?_cons_cons] at hlast
    rw [List.isChain_cons_cons]
    have hterms : ∀ inner, memo.scopes.get? target = some inner → inner ≠ [] :=
      fun inner hinner => h.ne_nil_of_chain hinner hrest hdistinct hlast hfield
    rcases h.inner?_of_links hkept hlink hne (Ne.symm htarget) hterms with
      ⟨inner, hinner, hopen, hfree⟩ | ⟨hplain, henclosed⟩
    · have hfollow : scope.follow (target :: types) = inner.follow types := by
        rw [Scope.follow, hopen, Option.bind_some]
      rw [hfollow, ih hinner hrest hdistinct houtside hlast]
      exact ⟨fun htail => ⟨hfree, htail⟩, And.right⟩
    · have hfollow : scope.follow (target :: types) = none := by
        rw [Scope.follow, hplain, Option.bind_none]
      rw [hfollow]
      constructor
      · rintro ⟨found, ⟨⟩, -⟩
      · rintro ⟨hfree, -⟩
        exact absurd henclosed hfree

end Complete

/-- A scope that occurs in a kept scope belongs to a type to which references lead. -/
theorem Complete.transGen_of_occurs {catalog : Catalog} {root : String} {memo : ContextMemo}
    (h : Complete tree registry context memo) (hmirrors : tree.Mirrors catalog registry root)
    {type other : String} {inner scope : Scope} (hkept : memo.scopes.get? other = some scope)
    (hoccurs : inner.Occurs type scope) : Relation.TransGen catalog.Refers other type := by
  have hrefers : ∀ {type term id : String} {inner scope : Scope},
      memo.scopes.get? type = some scope → scope.get? term = some (.scoped id inner) →
        memo.scopes.get? term = some inner ∧ catalog.Refers type term := by
    intro type term id inner scope hkept hterm
    obtain ⟨hinner, definition, hdefinition, hclaim⟩ := (h.sound type scope hkept).nests _ _ _ hterm
    obtain ⟨-, model, hmodel, rfl⟩ := hmirrors.get?_iff.mp hdefinition
    exact ⟨hinner, model, hmodel, TypeDefinition.type_mem_claims_ofModel_iff.mp hclaim⟩
  induction hoccurs generalizing other with
  | here hterm => exact .single (hrefers hkept hterm).2
  | inside hterm _ ih =>
    obtain ⟨hinner, hstep⟩ := hrefers hkept hterm
    exact .head hstep (ih hinner)

/-- Along a chain of references between types with class identifiers, the scopes lead to the
identifier of a field of the last type exactly if no type of the chain has its scope inside that of
the next one. Only a type to which references lead has a scope inside that of another. -/
theorem follow_resolves_iff {catalog : Catalog} {root : String}
    (htree : catalog.introspect registry root = .ok tree)
    (hbuild : build tree registry vocabulary = .ok context)
    {types : List String} {last : String} {model : Model} {field : FieldDecl} {id : String}
    (hchain : (root :: types).IsChain catalog.Refers) (hnodup : (root :: types).Nodup)
    (hclasses : ∀ type ∈ types, ∃ classId, registry.classId? type = some classId)
    (hlast : (root :: types).getLast? = some last) (hmodel : catalog.get? last = some model)
    (hfield : field ∈ model.fields) (hid : registry.fieldId? last field.name = some id) :
    ((∃ scope, context.follow types = some scope ∧ scope.id? field.name = some id) ↔
        (root :: types).IsChain fun type target => ¬ context.Encloses target type) ∧
      ∀ outer inner, context.Encloses outer inner →
        Relation.TransGen catalog.Refers outer inner := by
  have hmirrors := SchemaTree.mirrors_of_introspect htree
  have hreach : ∀ type ∈ root :: types, catalog.Reaches root type :=
    hchain.induction (catalog.Reaches root) _ (fun _ _ hrefers hreach => hreach.tail hrefers)
      fun _ => .refl
  have hlinks : (root :: types).IsChain (Links tree registry) :=
    hchain.imp_of_mem_tail_imp fun type target htype htarget hrefers =>
      (links_iff hmirrors (hreach type htype)).mpr ⟨hrefers, hclasses target htarget⟩
  have hidentifies : Identifies tree registry last field.name id :=
    (identifies_iff hmirrors (hreach last (List.mem_of_getLast? hlast))).mpr
      ⟨model, hmodel, field, hfield, rfl, hid⟩
  obtain ⟨memo, hcomplete⟩ := exists_complete_of_build hmirrors.get?_root hbuild
  have hkept := hcomplete.root
  have houtside : tree.root.name ∉ types := by
    rw [hmirrors.root_name]
    exact (List.nodup_cons.mp hnodup).1
  rw [hmirrors.root_name] at hkept
  refine ⟨hcomplete.follow_iff hkept hlinks hnodup houtside hlast hidentifies, ?_⟩
  rintro outer inner ⟨around, haround, inside, hinside⟩
  have haroundKept := hcomplete.get?_of_occurs hkept haround
  exact hcomplete.transGen_of_occurs hmirrors haroundKept hinside

/-- A root with lists of two types, each of which lists the other. -/
def mutualModels : Catalog :=
  .ofModels [
    { name := "Root", fields := [
      { name := "letters", kind := .collection (.reference "Letter") },
      { name := "replies", kind := .collection (.reference "Reply") }] },
    { name := "Letter", fields := [
      { name := "text", kind := .scalar .string },
      { name := "answers", kind := .collection (.reference "Reply") }] },
    { name := "Reply", fields := [
      { name := "note", kind := .scalar .string },
      { name := "cites", kind := .collection (.reference "Letter") }] }]

/-- Class identifiers for the two types, and an identifier for a field of each. -/
def mutualRegistry : Registry :=
  (((Registry.empty.putClass "Letter" "cw:Letter").putClass "Reply" "cw:Reply").putField
    "Letter" "text" { id := some "cw:text" }).putField "Reply" "note" { id := some "cw:note" }

/-- The root refers to replies, and these refer to letters. -/
theorem refers_mutualModels :
    mutualModels.Refers "Root" "Reply" ∧ mutualModels.Refers "Reply" "Letter" :=
  ⟨⟨_, by cbv, { name := "replies", kind := .collection (.reference "Reply") }, by simp,
      .collection .reference⟩,
    ⟨_, by cbv, { name := "cites", kind := .collection (.reference "Letter") }, by simp,
      .collection .reference⟩⟩

/-- The note of a reply is found in the scope of the replies, since these do not enclose the root.
-/
theorem follow_resolves_iff_mutualModels :
    ∃ tree context, mutualModels.introspect mutualRegistry "Root" = .ok tree ∧
      build tree mutualRegistry {} = .ok context ∧
      (((∃ scope, context.follow ["Reply"] = some scope ∧ scope.id? "note" = some "cw:note") ↔
          ["Root", "Reply"].IsChain fun type target => ¬ context.Encloses target type) ∧
        ∀ outer inner, context.Encloses outer inner →
          Relation.TransGen mutualModels.Refers outer inner) := by
  have hclasses : ∀ type ∈ ["Reply"], ∃ id, mutualRegistry.classId? type = some id := by
    simp only [List.mem_singleton, forall_eq]
    exact ⟨"cw:Reply", by cbv⟩
  refine ⟨_, _, by cbv, by cbv, ?_⟩
  exact @follow_resolves_iff _ mutualRegistry {} _ mutualModels "Root" (by cbv) (by cbv)
    ["Reply"] "Reply" _ { name := "note", kind := .scalar .string } "cw:note"
    (by simp [refers_mutualModels.1]) (by decide) hclasses rfl (by cbv) (by simp) (by cbv)

/-- Each of the two types is referred to by the other, so one of them is a plain term in the scope
of the other, also where the scope of that other stands at the root. -/
theorem identifier_unreachable_along_chain :
    ¬ ∀ (catalog : Catalog) (registry : Registry) (vocabulary : Vocabulary) (root : String)
      (tree : SchemaTree) (context : Scope) (types : List String) (last : String) (model : Model)
      (field : FieldDecl) (id : String),
      catalog.introspect registry root = .ok tree →
      build tree registry vocabulary = .ok context →
      types ≠ [] → (root :: types).IsChain catalog.Refers → (root :: types).Nodup →
      (∀ type ∈ types, ∃ classId, registry.classId? type = some classId) →
      (root :: types).getLast? = some last → catalog.get? last = some model →
      field ∈ model.fields → registry.fieldId? last field.name = some id →
      ∃ scope, Scope.follow context types = some scope ∧ scope.id? field.name = some id := by
  intro hclaim
  obtain ⟨hfirst, hsecond⟩ := refers_mutualModels
  have hclasses : ∀ type ∈ ["Reply", "Letter"],
      ∃ id, mutualRegistry.classId? type = some id := by
    simp only [List.forall_mem_cons, List.mem_singleton, forall_eq]
    exact ⟨⟨"cw:Reply", by cbv⟩, "cw:Letter", by cbv⟩
  obtain ⟨scope, hscope, -⟩ := hclaim mutualModels mutualRegistry {} "Root" _ _
    ["Reply", "Letter"] "Letter" _ { name := "text", kind := .scalar .string } "cw:text"
    (by cbv) (by cbv) (by simp) (by simp [hfirst, hsecond]) (by decide)
    hclasses rfl (by cbv) (by simp) (by cbv)
  cases hscope

end Context

end LinkedSchema
