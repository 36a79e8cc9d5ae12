import LinkedSchema.Proofs.Context.Refusal
import Mathlib

/-!
# Terms that collide

In the scope of a type a term can be claimed by a field and by the references to a type of its name,
in that of the root also by the vocabulary and by the class of the root. All references to a type
count as one source, since a claim that is made again changes nothing. A context is refused for a
term only where two sources claim it. It is refused wherever they claim it with two identifiers, and
with one identifier only where one source stands for a type that has terms of its own.
-/

namespace LinkedSchema

/-- What can claim a term in the scope of a type: a field of the type, the references to a type, and
for the root the keyword and the short name of the vocabulary and the class of the root. -/
inductive TermSource
  | field
  | reference
  | keyword
  | shortName
  | root
  deriving DecidableEq

/-- A source claims a term with an identifier in the scope of a type. -/
inductive Catalog.Claims (catalog : Catalog) (registry : Registry) (vocabulary : Vocabulary)
    (root : String) : String → TermSource → String → String → Prop
  | field {type id : String} {model : Model} {field : FieldDecl} :
    catalog.get? type = some model → field ∈ model.fields →
    registry.fieldId? type field.name = some id →
    Claims catalog registry vocabulary root type .field field.name id
  | reference {type target id : String} : catalog.Refers type target →
    registry.classId? target = some id →
    Claims catalog registry vocabulary root type .reference target id
  | keyword : Claims catalog registry vocabulary root root .keyword "@vocab" vocabulary.iri
  | shortName :
    Claims catalog registry vocabulary root root .shortName vocabulary.shortName vocabulary.iri
  | root {id : String} : registry.classId? root = some id →
    Claims catalog registry vocabulary root root .root root id

/-- A source claims a term with one identifier. -/
theorem Catalog.Claims.unique {catalog : Catalog} {registry : Registry} {vocabulary : Vocabulary}
    {root type term id other : String} {source : TermSource}
    (h : catalog.Claims registry vocabulary root type source term id)
    (hother : catalog.Claims registry vocabulary root type source term other) : id = other := by
  cases h with
  | @field _ _ _ declared _ _ hid =>
    generalize hname : declared.name = name at hother hid
    cases hother with
    | field _ _ hsame => exact Option.some.inj (hid.symm.trans (hname ▸ hsame))
  | reference _ hid =>
    cases hother with
    | reference _ hsame => exact Option.some.inj (hid.symm.trans hsame)
  | keyword =>
    cases hother
    rfl
  | shortName =>
    cases hother
    rfl
  | root hid =>
    cases hother with
    | root hsame => exact Option.some.inj (hid.symm.trans hsame)

/-- Noting a type changes nothing if it is noted already or has no definition. -/
theorem ContextMemo.note_eq_self_iff {memo : ContextMemo} {tree : SchemaTree} {type : String} :
    memo.note tree type = memo ↔ type ∈ memo.unscoped ∨ tree.get? type = none := by
  obtain ⟨scopes, unscoped⟩ := memo
  by_cases hnoted : type ∈ unscoped
  · simp [note, hnoted]
  · simp [note, hnoted]

namespace Context

section Repetition

variable {tree : SchemaTree} {registry : Registry} {active : List String} {owner : String}
  {claims : List Claim} {scope extended : Scope} {memo grown : ContextMemo}

/-- A claim is settled: its term has the meaning that it gives, or it is passed over and noted. -/
inductive Settled (tree : SchemaTree) (registry : Registry) (active : List String) (scope : Scope)
    (memo : ContextMemo) : Claim → Prop
  | assigned {claim : Claim} {term : String} {entry : Entry} :
    Assigns registry active memo claim term entry → scope.get? term = some entry →
    Settled tree registry active scope memo claim
  | noted {type : String} : registry.classId? type = none → memo.note tree type = memo →
    Settled tree registry active scope memo (.type type)

/-- A settled claim stays settled. -/
theorem Settled.extend {claim : Claim} (h : Settled tree registry active scope memo claim)
    (hextends : Extends active scope memo extended grown) :
    Settled tree registry active extended grown claim := by
  cases h with
  | assigned hassigns hterm =>
    exact .assigned (hassigns.mono hextends.grows) (hextends.keeps _ _ hterm)
  | noted hid hnote =>
    refine .noted hid (ContextMemo.note_eq_self_iff.mpr ?_)
    exact (ContextMemo.note_eq_self_iff.mp hnote).imp (fun hmem => hextends.notes hmem) id

/-- Making a settled claim again changes nothing. -/
theorem fill_of_settled {claim : Claim} (h : Settled tree registry active scope memo claim) :
    fill tree registry active owner (claim :: claims) scope memo =
      fill tree registry active owner claims scope memo := by
  cases h with
  | assigned hassigns hterm =>
    rw [fill_of_assigns hassigns, Context.claim, Scope.claim, hterm]
    simp only [if_true]
    rfl
  | noted hid hnote => rw [fill, hid, hnote]

/-- A run that succeeds settles its claims. -/
theorem Run.settles {starts : List Start}
    {outcome : Except (Interruption ContextError ContextMemo) (Scope × ContextMemo)}
    (h : Run tree registry active owner claims scope memo starts outcome)
    (hok : outcome = .ok (extended, grown)) :
    ∀ claim ∈ claims, Settled tree registry active extended grown claim := by
  induction h generalizing extended grown with
  | done => simp
  | @take active owner head claims scope middle memo term entry starts outcome hassigns hclaim hrest
      ih =>
    have hterm : middle.get? term = some entry :=
      (Scope.get?_of_claim (scope_claim_of_claim hclaim) term).trans (if_pos rfl)
    have hhead : Settled tree registry active extended grown head :=
      (Settled.assigned hassigns hterm).extend (hrest.extend hok)
    intro claim hmem
    rcases List.mem_cons.mp hmem with rfl | hmem
    · exact hhead
    · exact ih hok claim hmem
  | refuse => cases hok
  | @pass active owner type claims scope memo starts outcome hid hrest ih =>
    have hnote : (memo.note tree type).note tree type = memo.note tree type := by
      by_cases hdefined : tree.get? type = none
      · exact ContextMemo.note_eq_self_iff.mpr (.inr hdefined)
      · refine ContextMemo.note_eq_self_iff.mpr (.inl ?_)
        unfold ContextMemo.note
        split
        · next hnoted => simpa [hdefined] using hnoted
        · simp
    intro claim hmem
    rcases List.mem_cons.mp hmem with rfl | hmem
    · exact (Settled.noted hid hnote).extend (hrest.extend hok)
    · exact ih hok claim hmem
  | undefined => cases hok
  | abandon => cases hok
  | build _ _ _ _ _ ih => exact ih hok

/-- Claims are met in turn. -/
theorem fill_append (claims others : List Claim) :
    fill tree registry active owner (claims ++ others) scope memo =
      fill tree registry active owner claims scope memo >>=
        fun filled => fill tree registry active owner others filled.1 filled.2 := by
  obtain ⟨starts, hrun⟩ := exists_run tree registry active owner claims scope memo
  generalize fill tree registry active owner claims scope memo = outcome at hrun
  induction hrun with
  | done => rfl
  | take hassigns hclaim _ ih =>
    rw [List.cons_append, fill_of_assigns hassigns, hclaim]
    exact ih
  | refuse hassigns hclaim =>
    rw [List.cons_append, fill_of_assigns hassigns, hclaim]
    rfl
  | pass hid _ ih =>
    rw [List.cons_append, fill, hid]
    exact ih
  | undefined hwanting hundefined =>
    rw [List.cons_append, fill_of_undefined hwanting hundefined]
    rfl
  | abandon hwanting hdefinition hinner _ =>
    rw [List.cons_append, fill_of_wanting hwanting hdefinition, ← hinner.eq_fill]
    rfl
  | build hwanting hdefinition hinner _ _ ih =>
    rw [List.cons_append, fill_of_wanting hwanting hdefinition, ← hinner.eq_fill]
    exact ih

/-- A claim that was made before may be left out. -/
theorem fill_repeated (tree : SchemaTree) (registry : Registry) (active : List String)
    (owner : String) (claim : Claim) (before between after : List Claim) (scope : Scope)
    (memo : ContextMemo) :
    fill tree registry active owner (before ++ claim :: (between ++ claim :: after)) scope memo =
      fill tree registry active owner (before ++ claim :: (between ++ after)) scope memo := by
  rw [fill_append before, fill_append before]
  congr 1
  funext filled
  rw [← List.cons_append, ← List.cons_append, fill_append (claim :: between),
    fill_append (claim :: between)]
  cases hmiddle : fill tree registry active owner (claim :: between) filled.1 filled.2 with
  | error interruption => rfl
  | ok middle =>
    obtain ⟨starts, hrun⟩ :=
      exists_run tree registry active owner (claim :: between) filled.1 filled.2
    exact fill_of_settled (hrun.settles hmiddle claim List.mem_cons_self)

end Repetition

variable {tree : SchemaTree} {registry annotations : Registry} {vocabulary : Vocabulary}
  {catalog : Catalog} {root type term id : String}

/-- The context of an introspected tree is refused for nothing but a term with two meanings. -/
theorem exists_termCollision_of_build {error : ContextError}
    (hmirrors : tree.Mirrors catalog annotations root)
    (h : build tree registry vocabulary = .error error) :
    ∃ type term, error = .termCollision type term := by
  have hrefuses := refuses_of_build (fun _ _ => hmirrors.name_of_get?) hmirrors.get?_root h
  cases hrefuses with
  | @missing type target hlinked hlinks hmissing =>
    have hreach := Catalog.reaches_of_refersToClass ((linked_iff hmirrors).mp hlinked)
    have htarget := hreach.tail ((links_iff hmirrors hreach).mp hlinks).1
    obtain ⟨model, hmodel, -⟩ := hmirrors.defined target htarget
    have hdefinition := hmirrors.get?_iff.mpr ⟨htarget, model, hmodel, rfl⟩
    cases hmissing.symm.trans hdefinition
  | @fixed type term => exact ⟨type, term, rfl⟩
  | @linked type term => exact ⟨type, term, rfl⟩

/-- What fixes the identifier of a term in the scope of a type is a source other than the
references. -/
theorem Fixes.exists_claims (h : Fixes tree registry vocabulary type term id)
    (hmirrors : tree.Mirrors catalog annotations root) (hreach : catalog.Reaches root type) :
    ∃ source, source ≠ .reference ∧
      catalog.Claims registry vocabulary root type source term id := by
  rcases h with hfield | ⟨hroot, hintroduces⟩
  · obtain ⟨model, hmodel, field, hmem, rfl, hid⟩ := (identifies_iff hmirrors hreach).mp hfield
    exact ⟨.field, by decide, .field hmodel hmem hid⟩
  · rw [hmirrors.root_name] at hroot hintroduces
    subst hroot
    cases hintroduces with
    | keyword => exact ⟨.keyword, by decide, .keyword⟩
    | shortName => exact ⟨.shortName, by decide, .shortName⟩
    | root hid => exact ⟨.root, by decide, .root hid⟩

/-- References to a type with a class identifier are a source in the scope of the type that has
them. -/
theorem Links.claims (h : Links tree registry type term) (hid : registry.classId? term = some id)
    (hmirrors : tree.Mirrors catalog annotations root) (hreach : catalog.Reaches root type) :
    catalog.Claims registry vocabulary root type .reference term id :=
  .reference ((links_iff hmirrors hreach).mp h).1 hid

/-- Each source fixes the identifier of its term or links to the type of its name. -/
theorem fixes_or_links_of_claims {source : TermSource}
    (h : catalog.Claims registry vocabulary root type source term id)
    (hmirrors : tree.Mirrors catalog annotations root) (hreach : catalog.Reaches root type) :
    Fixes tree registry vocabulary type term id ∨
      Links tree registry type term ∧ registry.classId? term = some id := by
  have hintroduced : ∀ {term id}, vocabulary.Introduces registry root term id →
      Fixes tree registry vocabulary root term id :=
    fun hintroduces => .inr ⟨hmirrors.root_name.symm, hmirrors.root_name.symm ▸ hintroduces⟩
  cases h with
  | field hmodel hmem hid =>
    exact .inl (.inl ((identifies_iff hmirrors hreach).mpr ⟨_, hmodel, _, hmem, rfl, hid⟩))
  | reference hrefers hid =>
    exact .inr ⟨(links_iff hmirrors hreach).mpr ⟨hrefers, _, hid⟩, hid⟩
  | keyword => exact .inl (hintroduced .keyword)
  | shortName => exact .inl (hintroduced .shortName)
  | root hid => exact .inl (hintroduced (.root hid))

/-- A type with terms of its own has a source for one of them. -/
theorem HasTerms.exists_claims (h : HasTerms tree registry type)
    (hmirrors : tree.Mirrors catalog annotations root) (hreach : catalog.Reaches root type) :
    ∃ source term id, catalog.Claims registry vocabulary root type source term id := by
  obtain ⟨term, ⟨id, hfield⟩ | hlinks⟩ := h
  · have hfixes : Fixes tree registry vocabulary type term id := .inl hfield
    obtain ⟨source, -, hclaims⟩ := hfixes.exists_claims hmirrors hreach
    exact ⟨source, term, id, hclaims⟩
  · obtain ⟨id, hid⟩ := hlinks.exists_classId
    exact ⟨.reference, term, id, hlinks.claims hid hmirrors hreach⟩

/-- A context is refused for a term only in the scope of the root, or of a type with a class
identifier to which references lead from the root through such types, and only where two sources
claim the term there: with two identifiers, or with one that also stands for a type with terms of
its own. A type that is claimed again, by another field or by the same one, changes nothing. And
where two sources claim a term with two identifiers in such a scope, the context is refused for a
term. -/
theorem collision_of_two_sources {catalog : Catalog} {annotations registry : Registry}
    {vocabulary : Vocabulary} {root : String} {tree : SchemaTree}
    (htree : catalog.introspect annotations root = .ok tree) :
    (∀ type term, build tree registry vocabulary = .error (.termCollision type term) →
      Relation.ReflTransGen (catalog.RefersToClass registry) root type ∧
      ∃ first second id other, first ≠ second ∧
        catalog.Claims registry vocabulary root type first term id ∧
        catalog.Claims registry vocabulary root type second term other ∧
        (id = other → second = .reference ∧ term ≠ type ∧ term ≠ root ∧
          ∃ source inner innerId,
            catalog.Claims registry vocabulary root term source inner innerId)) ∧
    (∀ active owner target before between after scope memo,
      fill tree registry active owner
          (before ++ .type target :: (between ++ .type target :: after)) scope memo =
        fill tree registry active owner
          (before ++ .type target :: (between ++ after)) scope memo) ∧
    ∀ type term first second id other,
      Relation.ReflTransGen (catalog.RefersToClass registry) root type →
      catalog.Claims registry vocabulary root type first term id →
      catalog.Claims registry vocabulary root type second term other → id ≠ other →
      ∃ owner meeting, build tree registry vocabulary = .error (.termCollision owner meeting) := by
  have hmirrors := SchemaTree.mirrors_of_introspect htree
  refine ⟨?_, fun active owner target => fill_repeated tree registry active owner (.type target),
    ?_⟩
  · intro type term hbuild
    have hrefuses := refuses_of_build (fun _ _ => hmirrors.name_of_get?) hmirrors.get?_root hbuild
    cases hrefuses with
    | @fixed _ _ id other hlinked hfixes hother hne =>
      have hleads := (linked_iff hmirrors).mp hlinked
      have hreach := Catalog.reaches_of_refersToClass hleads
      obtain ⟨first, -, hfirst⟩ := hfixes.exists_claims hmirrors hreach
      obtain ⟨second, -, hsecond⟩ := hother.exists_claims hmirrors hreach
      have hdiffer : first ≠ second := by
        rintro rfl
        exact hne (hfirst.unique hsecond)
      exact ⟨hleads, first, second, id, other, hdiffer, hfirst, hsecond, fun heq => absurd heq hne⟩
    | @linked _ _ id other hlinked hfixes hlinks hclass hsame =>
      have hleads := (linked_iff hmirrors).mp hlinked
      have hreach := Catalog.reaches_of_refersToClass hleads
      obtain ⟨first, hfirst, hclaims⟩ := hfixes.exists_claims hmirrors hreach
      refine ⟨hleads, first, .reference, id, other, hfirst, hclaims,
        hlinks.claims hclass hmirrors hreach, fun heq => ⟨rfl, ?_⟩⟩
      obtain ⟨hterms, htype, hroot⟩ := hsame heq
      have hinner : catalog.Reaches root term :=
        hreach.tail ((links_iff hmirrors hreach).mp hlinks).1
      exact ⟨htype, hmirrors.root_name ▸ hroot, hterms.exists_claims hmirrors hinner⟩
  · intro type term first second id other hleads hfirst hsecond hne
    have hreach := Catalog.reaches_of_refersToClass hleads
    cases hbuild : build tree registry vocabulary with
    | error error =>
      obtain ⟨owner, meeting, rfl⟩ := exists_termCollision_of_build hmirrors hbuild
      exact ⟨owner, meeting, rfl⟩
    | ok context =>
      obtain ⟨memo, haccounted⟩ := exists_accounted_of_build hmirrors.get?_root hbuild
      obtain ⟨scope, hkept⟩ :=
        haccounted.exists_kept_of_linked haccounted.root ((linked_iff hmirrors).mpr hleads)
      -- In a context the term would stand for both identifiers.
      have hid := (haccounted.id?_iff hkept).mpr (fixes_or_links_of_claims hfirst hmirrors hreach)
      have hother :=
        (haccounted.id?_iff hkept).mpr (fixes_or_links_of_claims hsecond hmirrors hreach)
      exact absurd (Option.some.inj (hid.symm.trans hother)) hne

/-- A crate of boxes, each with two units and with a field that has the name of their type. -/
def labelledBoxes : Catalog :=
  .ofModels [
    { name := "Crate", fields := [
      { name := "boxes", kind := .collection (.reference "Box") }] },
    { name := "Box", fields := [
      { name := "outer", kind := .reference "Unit" },
      { name := "inner", kind := .nullable (.reference "Unit") },
      { name := "Unit", kind := .scalar .string }] },
    { name := "Unit", fields := [{ name := "code", kind := .scalar .string }] }]

/-- Class identifiers for boxes and units, and one identifier for the field and another for the type
of one name. -/
def boxRegistry : Registry :=
  ((Registry.empty.putClass "Box" "cw:Box").putClass "Unit" "cw:Unit").putField
    "Box" "Unit" { id := some "cw:label" }

/-- The two units of a box agree with each other and collide with the field that has their name. -/
theorem collision_of_two_sources_labelledBoxes :
    ∃ tree, labelledBoxes.introspect ∅ "Crate" = .ok tree ∧
      build tree boxRegistry {} = .error (.termCollision "Box" "Unit") ∧
      (∃ first second id other, first ≠ second ∧
        labelledBoxes.Claims boxRegistry {} "Crate" "Box" first "Unit" id ∧
        labelledBoxes.Claims boxRegistry {} "Crate" "Box" second "Unit" other) ∧
      ∃ owner meeting, build tree boxRegistry {} = .error (.termCollision owner meeting) := by
  have hok : (labelledBoxes.introspect ∅ "Crate").isOk = true := by cbv
  obtain ⟨tree, htree⟩ := Outcome.exists_of_isOk hok
  have hbuild : (labelledBoxes.introspect ∅ "Crate").map (build · boxRegistry {}) =
      .ok (.error (.termCollision "Box" "Unit")) := by cbv
  rw [htree] at hbuild
  have hcollision := Except.ok.inj hbuild
  have hcrate : labelledBoxes.RefersToClass boxRegistry "Crate" "Box" :=
    ⟨⟨_, by cbv, { name := "boxes", kind := .collection (.reference "Box") }, by simp,
      .collection .reference⟩, "cw:Box", by cbv⟩
  have hunit : labelledBoxes.Refers "Box" "Unit" :=
    ⟨_, by cbv, { name := "outer", kind := .reference "Unit" }, by simp, .reference⟩
  have hfield : labelledBoxes.Claims boxRegistry {} "Crate" "Box" .field "Unit" "cw:label" :=
    @Catalog.Claims.field _ _ _ _ _ _ _ { name := "Unit", kind := .scalar .string } (by cbv)
      (by simp) (by cbv)
  have hreference : labelledBoxes.Claims boxRegistry {} "Crate" "Box" .reference "Unit" "cw:Unit" :=
    .reference hunit (by cbv)
  obtain ⟨hmeets, -, hfails⟩ :=
    @collision_of_two_sources labelledBoxes ∅ boxRegistry {} "Crate" tree htree
  obtain ⟨-, first, second, id, other, hne, hfirst, hsecond, -⟩ := hmeets _ _ hcollision
  exact ⟨tree, htree, hcollision, ⟨first, second, id, other, hne, hfirst, hsecond⟩,
    hfails "Box" "Unit" _ _ _ _ (.single hcrate) hfield hreference (by decide)⟩

end Context

end LinkedSchema
