import LinkedSchema.Proofs.Context.Filling
import LinkedSchema.Proofs.Introspection.Tree

/-!
# Finished contexts

When a context is finished, no type is active any more. The scope of every type that was met is kept,
the context itself as the scope of the root, and a kept scope leads to the kept scopes of the types
that its type refers to. Only a type whose scope has the given one inside is a plain term there.
-/

namespace LinkedSchema

namespace TypeDefinition

variable {annotations registry : Registry} {model : Model}

/-- The image of a model claims the types that the model mentions. -/
theorem type_mem_claims_ofModel_iff {target : String} :
    .type target ∈ (ofModel annotations model).claims registry ↔
      ∃ field ∈ model.fields, field.kind.Mentions target := by
  simp only [claims, ofModel, List.mem_flatMap, List.mem_map, exists_exists_and_eq_and,
    Property.ofDecl, List.mem_append, Option.mem_toList, Option.map_eq_some_iff,
    Claim.type.injEq, exists_eq_right, Kind.mem_referenced_iff, Kind.mentions_normalize_iff,
    reduceCtorEq, and_false, exists_false, false_or]

/-- The image of a model claims the fields that have an identifier. -/
theorem field_mem_claims_ofModel_iff {name id : String} :
    .field name id ∈ (ofModel annotations model).claims registry ↔
      ∃ field ∈ model.fields, field.name = name ∧ registry.fieldId? model.name name = some id := by
  simp only [claims, ofModel, List.mem_flatMap, List.mem_map, exists_exists_and_eq_and,
    Property.ofDecl, List.mem_append, Option.mem_toList, Option.map_eq_some_iff,
    Claim.field.injEq, reduceCtorEq, and_false, exists_false, or_false]
  constructor
  · rintro ⟨field, hfield, _, hid, rfl, rfl⟩
    exact ⟨field, hfield, rfl, hid⟩
  · rintro ⟨field, hfield, rfl, hid⟩
    exact ⟨field, hfield, id, hid, rfl, rfl⟩

end TypeDefinition

/-- A type refers to another type that has a class identifier. -/
def Catalog.RefersToClass (catalog : Catalog) (registry : Registry) (type target : String) : Prop :=
  catalog.Refers type target ∧ ∃ id, registry.classId? target = some id

/-- What is reached through types with class identifiers is reached. -/
theorem Catalog.reaches_of_refersToClass {catalog : Catalog} {registry : Registry}
    {root type : String}
    (h : Relation.ReflTransGen (catalog.RefersToClass registry) root type) :
    catalog.Reaches root type :=
  Relation.ReflTransGen.mono (fun _ _ hrefers => hrefers.1) _ _ h

namespace Context

variable {tree : SchemaTree} {registry : Registry} {vocabulary : Vocabulary} {context : Scope}

/-- What a finished context amounts to: it is kept as the scope of the root, nothing is active any
more, and every other kept scope occurs in it. -/
structure Complete (tree : SchemaTree) (registry : Registry) (context : Scope)
    (memo : ContextMemo) : Prop where
  root : memo.scopes.get? tree.root.name = some context
  sound : Sound tree registry [] memo
  occurs : ∀ type inner, memo.scopes.get? type = some inner → type ≠ tree.root.name →
    inner ≠ [] → inner.Occurs type context

/-- The scope of the root has plain terms only before it is filled. -/
theorem isFlat_of_rootScope {root : String} {scope : Scope}
    (h : rootScope registry vocabulary root = .ok scope) : scope.IsFlat := by
  obtain ⟨first, hfirst, h⟩ := Outcome.bind_eq_ok_iff.mp h
  obtain ⟨second, hsecond, h⟩ := Outcome.bind_eq_ok_iff.mp h
  have hflat := (Scope.isFlat_nil.claim (scope_claim_of_claim hfirst)).claim
    (scope_claim_of_claim hsecond)
  split at h
  · cases h
    exact hflat
  · exact hflat.claim (scope_claim_of_claim h)

/-- A context is built by filling the scope of the root, in which the vocabulary stands, with the
claims of the root. -/
theorem exists_fill_of_build (h : build tree registry vocabulary = .ok context) :
    ∃ start memo, rootScope registry vocabulary tree.root.name = .ok start ∧
      fill tree registry [tree.root.name] tree.root.name (tree.root.claims registry) start {} =
        .ok (context, memo) := by
  unfold build at h
  split at h
  · cases h
  · next scope memo hbuild =>
    cases h
    obtain ⟨start, hstart, hfill⟩ := Outcome.bind_eq_ok_iff.mp hbuild
    exact ⟨start, memo, hstart, hfill⟩

/-- Before anything is kept nothing can be wrong with it. -/
theorem sound_empty (active : List String) : Sound tree registry active {} := by
  rintro type scope ⟨⟩

/-- A filled scope of the root is a finished context once it is kept. -/
theorem complete_of_fill {start : Scope} {memo : ContextMemo}
    (hroot : tree.get? tree.root.name = some tree.root)
    (hstart : rootScope registry vocabulary tree.root.name = .ok start)
    (hfill : fill tree registry [tree.root.name] tree.root.name (tree.root.claims registry)
      start {} = .ok (context, memo)) :
    Complete tree registry context (memo.keep tree.root.name context) := by
  have hfilled := filled_of_fill hfill (sound_empty _)
  refine ⟨?_, hfilled.sound_keep (sound_empty _) hroot rfl (isFlat_of_rootScope hstart), ?_⟩
  · exact ContextMemo.get?_scopes_keep_self memo tree.root.name context
  · intro type inner hkept hne
    rw [ContextMemo.get?_scopes_keep, if_neg hne.symm] at hkept
    exact hfilled.occurs type inner hkept rfl

/-- A context that was built is finished. -/
theorem exists_complete_of_build (hroot : tree.get? tree.root.name = some tree.root)
    (h : build tree registry vocabulary = .ok context) :
    ∃ memo, Complete tree registry context memo := by
  obtain ⟨start, memo, hstart, hfill⟩ := exists_fill_of_build h
  exact ⟨_, complete_of_fill hroot hstart hfill⟩

/-- The definition of a type refers to another type that has a class identifier. -/
def Links (tree : SchemaTree) (registry : Registry) (type target : String) : Prop :=
  ∃ definition, tree.get? type = some definition ∧ .type target ∈ definition.claims registry ∧
    ∃ id, registry.classId? target = some id

/-- What is linked to has a class identifier. -/
theorem Links.exists_classId {type target : String} (h : Links tree registry type target) :
    ∃ id, registry.classId? target = some id := by
  obtain ⟨-, -, -, hclass⟩ := h
  exact hclass

/-- The definition of a type refers to another type that has a class identifier and is not the
root. -/
def LinksInside (tree : SchemaTree) (registry : Registry) (type target : String) : Prop :=
  Links tree registry type target ∧ target ≠ tree.root.name

/-- A link that keeps away from the root is a link. -/
theorem linksInside_le : LinksInside tree registry ≤ Links tree registry :=
  fun _ _ hlink => hlink.1

/-- The definition of a type has a field with an identifier. -/
def Identifies (tree : SchemaTree) (registry : Registry) (type name id : String) : Prop :=
  ∃ definition, tree.get? type = some definition ∧ .field name id ∈ definition.claims registry

/-- A type has terms of its own: it identifies a field or links to a type. -/
def HasTerms (tree : SchemaTree) (registry : Registry) (type : String) : Prop :=
  ∃ term, (∃ id, Identifies tree registry type term id) ∨ Links tree registry type term

/-- A type is linked to from the root, over any number of types between. -/
def Linked (tree : SchemaTree) (registry : Registry) (type : String) : Prop :=
  Relation.ReflTransGen (Links tree registry) tree.root.name type

/-- Links lead away from the root and not back to it exactly where they lead to another type. -/
theorem leadsInside_iff {type : String} :
    Relation.TransGen (LinksInside tree registry) tree.root.name type ↔
      type ≠ tree.root.name ∧ Linked tree registry type := by
  constructor
  · intro hleads
    obtain ⟨-, -, -, hne⟩ := Relation.TransGen.tail'_iff.mp hleads
    exact ⟨hne, (Relation.TransGen.mono linksInside_le _ _ hleads).to_reflTransGen⟩
  · rintro ⟨hne, hleads⟩
    induction hleads with
    | refl => exact absurd rfl hne
    | @tail middle target _ hlink ih =>
      -- The way to the type may come back to the root, and then the last part of it counts.
      by_cases hmiddle : middle = tree.root.name
      · subst hmiddle
        exact .single ⟨hlink, hne⟩
      · exact (ih hmiddle).tail ⟨hlink, hne⟩

variable {catalog : Catalog} {annotations : Registry} {root type : String}

/-- A reachable type links to the types with class identifiers to which it refers. -/
theorem links_iff (hmirrors : tree.Mirrors catalog annotations root)
    (hreach : catalog.Reaches root type) {target : String} :
    Links tree registry type target ↔ catalog.RefersToClass registry type target := by
  constructor
  · rintro ⟨definition, hdefinition, hclaim, hclass⟩
    obtain ⟨-, model, hmodel, rfl⟩ := hmirrors.get?_iff.mp hdefinition
    exact ⟨⟨model, hmodel, TypeDefinition.type_mem_claims_ofModel_iff.mp hclaim⟩, hclass⟩
  · rintro ⟨⟨model, hmodel, hmentions⟩, hclass⟩
    have hdefinition := hmirrors.get?_iff.mpr ⟨hreach, model, hmodel, rfl⟩
    exact ⟨_, hdefinition, TypeDefinition.type_mem_claims_ofModel_iff.mpr hmentions, hclass⟩

/-- The types that are linked to are those to which references lead from the root through types with
class identifiers. -/
theorem linked_iff (hmirrors : tree.Mirrors catalog annotations root) :
    Linked tree registry type ↔
      Relation.ReflTransGen (catalog.RefersToClass registry) root type := by
  unfold Linked
  rw [hmirrors.root_name]
  constructor
  · intro hleads
    suffices h : catalog.Reaches root type ∧
        Relation.ReflTransGen (catalog.RefersToClass registry) root type from h.2
    induction hleads with
    | refl => exact ⟨.refl, .refl⟩
    | tail _ hlink ih =>
      have hrefers := (links_iff hmirrors ih.1).mp hlink
      exact ⟨ih.1.tail hrefers.1, ih.2.tail hrefers⟩
  · intro hleads
    suffices h : catalog.Reaches root type ∧
        Relation.ReflTransGen (Links tree registry) root type from h.2
    induction hleads with
    | refl => exact ⟨.refl, .refl⟩
    | tail _ hrefers ih =>
      exact ⟨ih.1.tail hrefers.1, ih.2.tail ((links_iff hmirrors ih.1).mpr hrefers)⟩

/-- A reachable type identifies its declared fields that have an identifier. -/
theorem identifies_iff (hmirrors : tree.Mirrors catalog annotations root)
    (hreach : catalog.Reaches root type) {name id : String} :
    Identifies tree registry type name id ↔ ∃ model, catalog.get? type = some model ∧
      ∃ field ∈ model.fields, field.name = name ∧ registry.fieldId? type name = some id := by
  constructor
  · rintro ⟨definition, hdefinition, hclaim⟩
    obtain ⟨-, model, hmodel, rfl⟩ := hmirrors.get?_iff.mp hdefinition
    have hfield := TypeDefinition.field_mem_claims_ofModel_iff.mp hclaim
    rw [Catalog.name_of_get? hmodel] at hfield
    exact ⟨model, hmodel, hfield⟩
  · rintro ⟨model, hmodel, hfield⟩
    rw [← Catalog.name_of_get? hmodel] at hfield
    have hdefinition := hmirrors.get?_iff.mpr ⟨hreach, model, hmodel, rfl⟩
    exact ⟨_, hdefinition, TypeDefinition.field_mem_claims_ofModel_iff.mpr hfield⟩

namespace Complete

variable {memo : ContextMemo}

/-- A scope that occurs in a kept scope is the one that is kept for its type. -/
theorem get?_of_occurs (h : Complete tree registry context memo) {type other : String}
    {inner scope : Scope} (hkept : memo.scopes.get? other = some scope)
    (hoccurs : inner.Occurs type scope) : memo.scopes.get? type = some inner :=
  h.sound.get?_of_occurs hkept hoccurs

/-- A kept scope gives a field its identifier. -/
theorem get?_of_identifies (h : Complete tree registry context memo) {type name id : String}
    {scope : Scope} (hkept : memo.scopes.get? type = some scope)
    (hfield : Identifies tree registry type name id) : scope.get? name = some (.iri id) := by
  obtain ⟨definition, hdefinition, hclaim⟩ := hfield
  exact (h.sound type scope hkept).honours definition hdefinition _ hclaim

/-- In a kept scope another type that is referred to leads to its own scope, unless that is empty,
or it is a plain term and has the scope inside its own. -/
theorem get?_of_links (h : Complete tree registry context memo) {type target : String}
    {scope : Scope} (hkept : memo.scopes.get? type = some scope)
    (hlink : Links tree registry type target) (hne : target ≠ type) :
    ∃ id inner, memo.scopes.get? target = some inner ∧
      (scope.get? target = some (typeEntry id inner) ∨
        scope.get? target = some (.iri id) ∧ scope.Occurs type inner) := by
  obtain ⟨definition, hdefinition, hclaim, id, hid⟩ := hlink
  rcases (h.sound type scope hkept).honours definition hdefinition _ hclaim id hid with
    ⟨inner, hinner, hterm⟩ | ⟨heq | hactive | ⟨around, haround, hinside⟩, hterm⟩
  · exact ⟨id, inner, hinner, .inl hterm⟩
  · exact absurd heq hne
  · cases hactive
  · have hscope : scope ≠ [] := by
      rintro rfl
      cases hterm
    exact ⟨id, around, haround, .inr ⟨hterm, hinside hscope⟩⟩

end Complete

end Context

end LinkedSchema
