import LinkedSchema.Proofs.Context.Agreement
import LinkedSchema.Proofs.Context.Refusal
import LinkedSchema.Proofs.Introspection.Reordering

/-!
# The order of declaration in a context

The order of fields decides which types are active when the scope of a type is built, and so which
of two types that link to each other is a plain term inside the scope of the other. Nothing else
depends on it: the contexts of reordered trees agree but for such types, and where one of the trees
has a context the other is refused one at most for such types.
-/

namespace LinkedSchema

/-- Reordered definitions make the same claims. -/
theorem TypeDefinition.Reordered.mem_claims_iff {definition other : TypeDefinition}
    (h : definition.Reordered other) {registry : Registry} {claim : Claim} :
    claim ∈ definition.claims registry ↔ claim ∈ other.claims registry := by
  unfold TypeDefinition.claims
  rw [h.name]
  exact (h.fields.flatMap_right _).mem_iff

namespace Context

variable {tree other : SchemaTree} {registry : Registry} {vocabulary : Vocabulary}
  {context counterpart : Scope} {memo grown : ContextMemo} {type term : String}

/-- Two types link to each other, over any number of other types but not over the root. -/
def Entwines (tree : SchemaTree) (registry : Registry) (type target : String) : Prop :=
  type ≠ target ∧ Relation.TransGen (LinksInside tree registry) type target ∧
    Relation.TransGen (LinksInside tree registry) target type

end Context

namespace SchemaTree.Reordered

open Context

variable {tree other : SchemaTree} {registry : Registry}

/-- What is required of a type and of what its definition claims holds in one tree if it does in the
other. -/
theorem exists_claim (h : tree.Reordered other) {type : String} {claim : Claim}
    (hclaim : ∃ definition, tree.get? type = some definition ∧ claim ∈ definition.claims registry) :
    ∃ definition, other.get? type = some definition ∧ claim ∈ definition.claims registry := by
  obtain ⟨definition, hdefinition, hclaim⟩ := hclaim
  obtain ⟨found, hfound, hdefinitions⟩ := exists_of_rel (h.get? type) hdefinition
  exact ⟨found, hfound, hdefinitions.mem_claims_iff.mp hclaim⟩

/-- What is linked to in one tree is linked to in the other. -/
theorem links (h : tree.Reordered other) {type target : String}
    (hlink : Links tree registry type target) : Links other registry type target := by
  obtain ⟨definition, hdefinition, hclaim, hclass⟩ := hlink
  obtain ⟨found, hfound, hsame⟩ := h.exists_claim ⟨definition, hdefinition, hclaim⟩
  exact ⟨found, hfound, hsame, hclass⟩

/-- Types are linked to the same types in both trees. -/
theorem links_eq (h : tree.Reordered other) : Links tree registry = Links other registry := by
  funext type target
  exact propext ⟨h.links, h.symm.links⟩

/-- The fields of a type have the same identifiers in both trees. -/
theorem identifies_eq (h : tree.Reordered other) :
    Identifies tree registry = Identifies other registry := by
  funext type name id
  exact propext ⟨h.exists_claim, h.symm.exists_claim⟩

/-- Links that keep away from the root are the same in both trees. -/
theorem linksInside_eq (h : tree.Reordered other) :
    LinksInside tree registry = LinksInside other registry := by
  unfold LinksInside
  rw [h.links_eq, h.root.name]

/-- The same types have terms of their own in both trees. -/
theorem hasTerms_eq (h : tree.Reordered other) :
    HasTerms tree registry = HasTerms other registry := by
  unfold HasTerms
  rw [h.links_eq, h.identifies_eq]

/-- The same meanings are fixed in both trees. -/
theorem fixes_eq (h : tree.Reordered other) (vocabulary : Vocabulary) :
    Fixes tree registry vocabulary = Fixes other registry vocabulary := by
  unfold Fixes
  rw [h.identifies_eq, h.root.name]

/-- The same types link to each other in both trees. -/
theorem entwines_eq (h : tree.Reordered other) :
    Entwines tree registry = Entwines other registry := by
  unfold Entwines
  rw [h.linksInside_eq]

/-- The root leads to the same types in both trees. -/
theorem linked_eq (h : tree.Reordered other) : Linked tree registry = Linked other registry := by
  unfold Linked
  rw [h.links_eq, h.root.name]

/-- A reason to refuse a context for one tree is one to refuse a context for the other. -/
theorem refuses (h : tree.Reordered other) {vocabulary : Vocabulary} {error : ContextError}
    (hrefuses : Refuses other registry vocabulary error) :
    Refuses tree registry vocabulary error := by
  have hroot := h.root.name
  cases hrefuses with
  | @missing type target hlinked hlink hnone =>
    rw [← h.linked_eq] at hlinked
    rw [← h.links_eq] at hlink
    have htarget := h.get? target
    rw [hnone] at htarget
    refine .missing hlinked hlink ?_
    cases hget : tree.get? target with
    | none => rfl
    | some definition =>
      rw [hget] at htarget
      cases htarget
  | fixed hlinked hfixes hother hne =>
    rw [← h.linked_eq] at hlinked
    rw [← h.fixes_eq] at hfixes hother
    exact .fixed hlinked hfixes hother hne
  | linked hlinked hfixes hlink hid hterms =>
    rw [← h.linked_eq] at hlinked
    rw [← h.fixes_eq] at hfixes
    rw [← h.links_eq] at hlink
    rw [← h.hasTerms_eq, ← hroot] at hterms
    exact .linked hlinked hfixes hlink hid hterms

end SchemaTree.Reordered

namespace Context

variable {tree other : SchemaTree} {registry : Registry} {vocabulary : Vocabulary}
  {context counterpart scope found : Scope} {memo grown : ContextMemo} {type term : String}

namespace Accounted

/-- A scope that stands for a type is that of a type that is linked to. -/
theorem linked_of_standsFor (h : Accounted tree registry vocabulary context memo)
    (hstands : context.StandsFor tree.root.name type scope) : Linked tree registry type := by
  rcases hstands with ⟨rfl, -⟩ | hoccurs
  · exact .refl
  · exact (leadsInside_iff.mp (h.linked_of_occurs h.root hoccurs).2).2

/-- Another type than the root that has terms of its own is a plain term only where it links back. -/
theorem entwines_of_plain (h : Accounted tree registry vocabulary context memo)
    (hkept : memo.scopes.get? type = some scope) (hlink : Links tree registry type term)
    (hne : term ≠ type) (hroot : term ≠ tree.root.name) (hterms : HasTerms tree registry term)
    {id : String} (hplain : scope.get? term = some (.iri id)) :
    Entwines tree registry type term := by
  obtain ⟨other, inner, hinner, hterm | ⟨-, hinside⟩⟩ := h.get?_of_links hkept hlink hne
  · rw [typeEntry_of_ne_nil ((h.ne_nil_iff hinner hroot).mpr hterms), hplain] at hterm
    cases hterm
  · exact ⟨hne.symm, .single ⟨hlink, hroot⟩, (h.linked_of_occurs hinner hinside).2⟩

/-- Where a tree has a context, a reason to refuse one can only be that a field has the name and
identifier of a type that links back to its own. -/
theorem collision_of_refuses (h : Accounted tree registry vocabulary context memo)
    {error : ContextError} (hrefuses : Refuses tree registry vocabulary error) :
    ∃ type term id, error = .termCollision type term ∧ Identifies tree registry type term id ∧
      registry.classId? term = some id ∧ Linked tree registry type ∧
      Entwines tree registry type term := by
  cases hrefuses with
  | missing hlinked hlink hnone =>
    obtain ⟨inner, hinner⟩ := h.exists_kept_of_linked h.root (hlinked.tail hlink)
    obtain ⟨definition, hdefinition, -⟩ := h.origin _ inner hinner
    rw [hnone] at hdefinition
    cases hdefinition
  | fixed hlinked hfixes hother hne =>
    obtain ⟨scope, hkept⟩ := h.exists_kept_of_linked h.root hlinked
    have hterm := (h.get?_of_fixes hkept hfixes).symm.trans (h.get?_of_fixes hkept hother)
    cases hterm
    exact absurd rfl hne
  | @linked type term id other hlinked hfixes hlink hid hterms =>
    obtain ⟨scope, hkept⟩ := h.exists_kept_of_linked h.root hlinked
    have hplain := h.get?_of_fixes hkept hfixes
    have hsame : id = other := by
      have hterm := (h.id?_iff hkept).mpr (.inr ⟨hlink, hid⟩)
      rw [Scope.id?, hplain] at hterm
      exact Option.some.inj hterm
    obtain ⟨hterms, hne, hroot⟩ := hterms hsame
    have hentwines := h.entwines_of_plain hkept hlink hne hroot hterms hplain
    subst hsame
    refine ⟨type, term, id, rfl, ?_, hid, hlinked, hentwines⟩
    rcases hfixes with hfield | ⟨heq, -⟩
    · exact hfield
    · -- Nothing that keeps away from the root links back to it.
      obtain ⟨-, -, -, houtside⟩ := Relation.TransGen.tail'_iff.mp hentwines.2.2
      exact absurd heq houtside

/-- Scopes of one type in the contexts of reordered trees have the same terms with the same
identifiers. -/
theorem id?_eq (h : Accounted tree registry vocabulary context memo)
    (hother : Accounted other registry vocabulary counterpart grown) (htrees : tree.Reordered other)
    (hkept : memo.scopes.get? type = some scope) (hfound : grown.scopes.get? type = some found)
    (term : String) : scope.id? term = found.id? term := by
  refine Option.ext fun id => ?_
  rw [h.id?_iff hkept, hother.id?_iff hfound, htrees.fixes_eq, htrees.links_eq]

/-- A term with a scope in the one context that is plain in the other is a type that links back. -/
theorem entwines_of_differ (h : Accounted tree registry vocabulary context memo)
    (hother : Accounted other registry vocabulary counterpart grown) (htrees : tree.Reordered other)
    (hkept : memo.scopes.get? type = some scope) (hfound : grown.scopes.get? type = some found)
    {id plainId : String} {inner : Scope} (hterm : scope.get? term = some (.scoped id inner))
    (hplain : found.get? term = some (.iri plainId)) : Entwines tree registry type term := by
  obtain ⟨hlink, -, hterms, hinner⟩ := h.links_of_scoped hkept hterm
  have hroot := h.ne_root_of_occurs hkept (.here hterm)
  have hne : term ≠ type := by
    rintro rfl
    obtain rfl : inner = scope := Option.some.inj (hinner.symm.trans hkept)
    have hsmaller := Scope.sizeOf_lt_of_get? hterm
    omega
  have howned := (h.ne_nil_iff hinner hroot).mp hterms
  rw [htrees.links_eq] at hlink
  rw [htrees.hasTerms_eq] at howned
  rw [htrees.entwines_eq]
  exact hother.entwines_of_plain hfound hlink hne (htrees.root.name ▸ hroot) howned hplain

/-- The two meanings of a term have one identifier. Unless the term is a type that links back, both
are plain or both have a scope. -/
theorem entwines_or_same_form (h : Accounted tree registry vocabulary context memo)
    (hother : Accounted other registry vocabulary counterpart grown) (htrees : tree.Reordered other)
    (hkept : memo.scopes.get? type = some scope) (hfound : grown.scopes.get? type = some found)
    {entry meaning : Entry} (hterm : scope.get? term = some entry)
    (hmeaning : found.get? term = some meaning) :
    Entwines tree registry type term ∨ (∃ id, entry = .iri id ∧ meaning = .iri id) ∨
      ∃ id inner counterpart, entry = .scoped id inner ∧ meaning = .scoped id counterpart := by
  have hid : entry.id = meaning.id := by
    have hsame := h.id?_eq hother htrees hkept hfound term
    rw [Scope.id?, Scope.id?, hterm, hmeaning] at hsame
    exact Option.some.inj hsame
  rcases entry with id | ⟨id, inner⟩ <;> rcases meaning with other | ⟨other, inner'⟩ <;>
    obtain rfl : id = other := hid
  · exact .inr (.inl ⟨id, rfl, rfl⟩)
  · have hentwined := hother.entwines_of_differ h htrees.symm hfound hkept hmeaning hterm
    rw [← htrees.entwines_eq] at hentwined
    exact .inl hentwined
  · exact .inl (h.entwines_of_differ hother htrees hkept hfound hterm hmeaning)
  · exact .inr (.inr ⟨id, inner, inner', rfl, rfl⟩)

/-- Where no types link to each other, the scopes of one type in both contexts are equal as JSON. -/
theorem equal_of_apart (h : Accounted tree registry vocabulary context memo)
    (hother : Accounted other registry vocabulary counterpart grown) (htrees : tree.Reordered other)
    (hapart : ∀ type target, Linked tree registry type → ¬ Entwines tree registry type target)
    (hlinked : Linked tree registry type) (hkept : memo.scopes.get? type = some scope)
    (hfound : grown.scopes.get? type = some found) : scope.toJson.equal found.toJson = true := by
  induction hsize : sizeOf scope using Nat.strongRecOn generalizing type scope found with
  | ind size ih =>
    subst hsize
    refine Scope.equal_toJson (h.nodup type scope hkept) (hother.nodup type found hfound)
      (h.id?_eq hother htrees hkept hfound) ?_
    intro term entry meaning hterm hmeaning
    rcases h.entwines_or_same_form hother htrees hkept hfound hterm hmeaning with
      hentwined | ⟨id, rfl, rfl⟩ | ⟨id, inner, inner', rfl, rfl⟩
    · exact absurd hentwined (hapart type term hlinked)
    · simp [Entry.toJson, Json.equal]
    · obtain ⟨hlink, -, -, hinner⟩ := h.links_of_scoped hkept hterm
      obtain ⟨-, -, -, hinner'⟩ := hother.links_of_scoped hfound hmeaning
      have hsmaller := Scope.sizeOf_lt_of_get? hterm
      exact Scope.equal_toJson_scoped
        (ih (sizeOf inner) hsmaller (hlinked.tail hlink) hinner hinner' rfl)

/-- The contexts of reordered trees agree but for types that link to each other. -/
theorem agrees (h : Accounted tree registry vocabulary context memo)
    (hother : Accounted other registry vocabulary counterpart grown)
    (htrees : tree.Reordered other) :
    Scope.Agrees tree.root.name
      (fun type term => Linked tree registry type ∧ Entwines tree registry type term)
      context counterpart := by
  have hname := htrees.root.name
  constructor
  case occurs_iff =>
    intro type
    rw [h.exists_occurs_iff, hother.exists_occurs_iff, htrees.linksInside_eq, htrees.hasTerms_eq,
      hname]
  case id?_eq =>
    intro type scope found hscope hfound
    rw [hname] at hfound
    exact h.id?_eq hother htrees (h.get?_of_standsFor hscope) (hother.get?_of_standsFor hfound)
  case inner?_isSome_eq =>
    intro type scope found hscope hfound term hexempt
    have hlinked := h.linked_of_standsFor hscope
    have hkept := h.get?_of_standsFor hscope
    rw [hname] at hfound
    have hmatch := hother.get?_of_standsFor hfound
    have hids := h.id?_eq hother htrees hkept hmatch term
    unfold Scope.id? at hids
    unfold Scope.inner?
    cases hterm : scope.get? term with
    | none =>
      rw [hterm, Option.map_none, eq_comm, Option.map_eq_none_iff] at hids
      rw [hids]
    | some entry =>
      rw [hterm, Option.map_some, eq_comm, Option.map_eq_some_iff] at hids
      obtain ⟨meaning, hmeaning, -⟩ := hids
      rw [hmeaning]
      rcases h.entwines_or_same_form hother htrees hkept hmatch hterm hmeaning with
        hentwined | ⟨id, rfl, rfl⟩ | ⟨id, inner, inner', rfl, rfl⟩
      · exact absurd ⟨hlinked, hentwined⟩ hexempt
      · rfl
      · rfl
  case equal =>
    intro hnone
    have hroot := hother.root
    rw [← hname] at hroot
    exact h.equal_of_apart hother htrees (fun type target hlinked hentwined =>
      hnone type target ⟨hlinked, hentwined⟩) .refl h.root hroot

end Accounted

end Context

namespace Catalog

/-- A type refers to another type that has a class identifier and is not the root. -/
def RefersInside (catalog : Catalog) (registry : Registry) (root type target : String) : Prop :=
  catalog.RefersToClass registry type target ∧ target ≠ root

/-- References lead from the root to a type, and from this type to another one and back, all of them
through types with class identifiers and the latter not over the root. -/
def Entwined (catalog : Catalog) (registry : Registry) (root type target : String) : Prop :=
  type ≠ target ∧ Relation.ReflTransGen (catalog.RefersToClass registry) root type ∧
    Relation.TransGen (catalog.RefersInside registry root) type target ∧
    Relation.TransGen (catalog.RefersInside registry root) target type

end Catalog

namespace Context

variable {tree : SchemaTree} {registry annotations : Registry} {catalog : Catalog}
  {root type target : String}

/-- From a reachable type links lead only where references do. -/
theorem refersInside_of_links (hmirrors : tree.Mirrors catalog annotations root)
    (hreach : catalog.Reaches root type)
    (hleads : Relation.TransGen (LinksInside tree registry) type target) :
    catalog.Reaches root target ∧
      Relation.TransGen (catalog.RefersInside registry root) type target := by
  have hstep : ∀ {type target}, catalog.Reaches root type →
      LinksInside tree registry type target → catalog.RefersInside registry root type target := by
    rintro type target hreach ⟨hlink, hne⟩
    exact ⟨(links_iff hmirrors hreach).mp hlink, hmirrors.root_name ▸ hne⟩
  induction hleads with
  | single hlink =>
    have hrefers := hstep hreach hlink
    exact ⟨hreach.tail hrefers.1.1, .single hrefers⟩
  | tail _ hlink ih =>
    have hrefers := hstep ih.1 hlink
    exact ⟨ih.1.tail hrefers.1.1, ih.2.tail hrefers⟩

/-- Types of a tree that link to each other are entwined in the catalog. -/
theorem entwined_of_entwines (hmirrors : tree.Mirrors catalog annotations root)
    (hlinked : Linked tree registry type) (h : Entwines tree registry type target) :
    catalog.Entwined registry root type target := by
  have hleads := (linked_iff hmirrors).mp hlinked
  have hreach := Catalog.reaches_of_refersToClass hleads
  obtain ⟨hne, hforth, hback⟩ := h
  obtain ⟨htarget, hforth⟩ := refersInside_of_links hmirrors hreach hforth
  exact ⟨hne, hleads, hforth, (refersInside_of_links hmirrors htarget hback).2⟩

/-- Where a context is built for a tree, one that agrees with it but for entwined types is built for
a reordered tree, or is refused for a field that has the name and the identifier of such a type. -/
theorem build_reordered {other : SchemaTree} {reordered : Catalog} {vocabulary : Vocabulary}
    {context : Scope} (hmirrors : tree.Mirrors catalog annotations root)
    (hother : other.Mirrors reordered annotations root) (htrees : tree.Reordered other)
    (hbuild : build tree registry vocabulary = .ok context) :
    (∃ counterpart, build other registry vocabulary = .ok counterpart ∧
        context.Agrees root (catalog.Entwined registry root) counterpart) ∨
      ∃ type term id, build other registry vocabulary = .error (.termCollision type term) ∧
        (∃ model, catalog.get? type = some model ∧ ∃ field ∈ model.fields, field.name = term) ∧
        registry.fieldId? type term = some id ∧ registry.classId? term = some id ∧
        catalog.Entwined registry root type term := by
  obtain ⟨memo, haccounted⟩ := exists_accounted_of_build hmirrors.get?_root hbuild
  cases hcounterpart : build other registry vocabulary with
  | ok counterpart =>
    obtain ⟨grown, hgrown⟩ := exists_accounted_of_build hother.get?_root hcounterpart
    have hagrees := haccounted.agrees hgrown htrees
    rw [hmirrors.root_name] at hagrees
    refine .inl ⟨counterpart, rfl, hagrees.mono ?_⟩
    rintro type term ⟨hlinked, hentwines⟩
    exact entwined_of_entwines hmirrors hlinked hentwines
  | error error =>
    have hrefuses := refuses_of_build (fun _ _ => hother.name_of_get?) hother.get?_root hcounterpart
    obtain ⟨type, term, id, rfl, hfield, hclass, hlinked, hentwines⟩ :=
      haccounted.collision_of_refuses (htrees.refuses hrefuses)
    have hentwined := entwined_of_entwines hmirrors hlinked hentwines
    have hreach := Catalog.reaches_of_refersToClass hentwined.2.1
    obtain ⟨model, hmodel, field, hmem, hname, hid⟩ := (identifies_iff hmirrors hreach).mp hfield
    exact .inr ⟨type, term, id, rfl, ⟨model, hmodel, field, hmem, hname⟩, hid, hclass, hentwined⟩

end Context

end LinkedSchema
