import LinkedSchema.Proofs.Context.Accounted
import LinkedSchema.Proofs.Document.Reordering
import LinkedSchema.Proofs.Identifier.Characters
import LinkedSchema.Proofs.Registry.History

/-!
# Identifiers in a context

Whatever a term stands for in a context, at any depth, is registered for a field or for a type, or
is the base IRI that the vocabulary introduces in the scope of the root. What is registered has
passed the check of identifiers, whatever the history of the registry. So it is well-formed up to
control characters: the check keeps white space out and the printable characters that an IRI
forbids, and lets other control characters pass.
-/

namespace LinkedSchema

/-- A term has a meaning in a scope, or at some depth inside it. -/
inductive Scope.Holds (term : String) (entry : Entry) : Scope → Prop
  | here {scope : Scope} : (term, entry) ∈ scope → Holds term entry scope
  | inside {scope inner : Scope} {other id : String} : (other, .scoped id inner) ∈ scope →
    Holds term entry inner → Holds term entry scope

/-- An identifier is registered for a field or for a type. -/
def Registry.HasIdentifier (registry : Registry) (id : String) : Prop :=
  (∃ type field, registry.fieldId? type field = some id) ∨ ∃ type, registry.classId? type = some id

/-- A context says everything, at any depth, with registered identifiers, but for the base IRI that
the vocabulary introduces in the scope of the root. -/
def Scope.IsRegistered (registry : Registry) (vocabulary : Vocabulary) (context : Scope) : Prop :=
  ∀ term entry, context.Holds term entry → registry.HasIdentifier entry.id ∨
    (term, entry) ∈ context ∧ vocabulary.Binds term ∧ entry = .iri vocabulary.iri

/-- What is registered in some history has the form of an identifier. -/
theorem Registry.hasForm_of_hasIdentifier {calls : List Call} {id : String}
    (h : (ofCalls calls).HasIdentifier id) : Identifier.HasForm id := by
  have hheld : ∀ {subject registration}, (ofCalls calls).held? subject = some registration →
      registration.identifier? = some id → Identifier.HasForm id := by
    intro subject registration hheld hid
    have hwell := isWellFormed_of_held hheld
    rw [Registration.isWellFormed, hid, Bool.and_eq_true] at hwell
    exact Identifier.isValid_iff.mp hwell.2
  rcases h with ⟨type, field, hid⟩ | ⟨type, hid⟩
  · obtain ⟨metadata, hmetadata, hid⟩ := Option.bind_eq_some_iff.mp hid
    exact hheld (held?_field_iff.mpr hmetadata) hid
  · exact hheld (held?_type_iff.mpr hid) rfl

namespace Context

variable {tree : SchemaTree} {registry : Registry} {vocabulary : Vocabulary} {context : Scope}
  {term : String} {entry : Entry}

/-- A claim of a definition gives registered identifiers only. -/
theorem hasIdentifier_of_gives {definition : TypeDefinition} {claim : Claim}
    (hclaim : claim ∈ definition.claims registry) (h : claim.Gives registry term entry) :
    registry.HasIdentifier entry.id := by
  cases h with
  | field =>
    obtain ⟨field, -, hclaim⟩ := List.mem_flatMap.mp hclaim
    rcases List.mem_append.mp hclaim with hclaim | hclaim
    · obtain ⟨id, hid, heq⟩ := Option.map_eq_some_iff.mp (Option.mem_toList.mp hclaim)
      cases heq
      exact .inl ⟨_, _, hid⟩
    · simp at hclaim
  | plain hid => exact .inr ⟨_, hid⟩
  | nested hid _ => exact .inr ⟨_, hid⟩

/-- A scope that is kept holds registered identifiers only, at any depth. -/
theorem hasIdentifier_of_kept {memo : ContextMemo} {active : List String}
    (hsound : Sound tree registry active memo) (htraced : Traced tree registry memo) {type : String}
    {scope : Scope} (hkept : memo.scopes.get? type = some scope) (h : scope.Holds term entry) :
    registry.HasIdentifier entry.id := by
  induction h generalizing type with
  | here hmem =>
    obtain ⟨definition, -, htraces⟩ := htraced type _ hkept
    rcases htraces.origin term entry (Table.get?_of_mem htraces.nodup hmem) with
      hstart | ⟨claim, hclaim, hgives⟩
    · cases hstart
    · exact hasIdentifier_of_gives hclaim hgives
  | inside hmem _ ih =>
    obtain ⟨definition, -, htraces⟩ := htraced type _ hkept
    exact ih ((hsound type _ hkept).nests _ _ _ (Table.get?_of_mem htraces.nodup hmem)).1

/-- At any depth a context holds registered identifiers only, besides what is introduced in the
scope of the root. -/
theorem isRegistered_of_build (h : build tree registry vocabulary = .ok context) :
    context.IsRegistered registry vocabulary := by
  obtain ⟨start, memo, hstart, hfill⟩ := exists_fill_of_build h
  have hfilled := filled_of_fill hfill (sound_empty _)
  obtain ⟨htraced, htraces⟩ :=
    traces_of_fill hfill traced_empty (nodup_terms_of_rootScope hstart)
  intro term entry hholds
  cases hholds with
  | here hmem =>
    rcases htraces.origin term entry (Table.get?_of_mem htraces.nodup hmem) with
      hintroduced | ⟨claim, hclaim, hgives⟩
    · obtain ⟨id, hintroduces, rfl⟩ := (get?_rootScope_iff hstart).mp hintroduced
      cases hintroduces with
      | keyword => exact .inr ⟨hmem, .inl rfl, rfl⟩
      | shortName => exact .inr ⟨hmem, .inr rfl, rfl⟩
      | root hid => exact .inl (.inr ⟨_, hid⟩)
    · exact .inl (hasIdentifier_of_gives hclaim hgives)
  | inside hmem hinside =>
    rcases hfilled.nests _ _ _ (Table.get?_of_mem htraces.nodup hmem) with hflat | ⟨hkept, -⟩
    · exact absurd hflat (isFlat_of_rootScope hstart _ _ _)
    · exact .inl (hasIdentifier_of_kept hfilled.sound htraced hkept hinside)

/-- The context of an exported document holds what is registered when it is exported. -/
theorem isRegistered_of_exportDocument {catalog : Catalog} {root : String} {instance? : Option Json}
    {document : Document}
    (h : (exportDocument registry catalog vocabulary root instance?).2 = .ok document) :
    document.context.IsRegistered registry vocabulary := by
  obtain ⟨tree, context, -, hbuild, hassemble⟩ := compile_eq_ok_iff.mp h
  obtain ⟨-, data, -, rfl⟩ := SchemaTree.assemble_eq_ok_iff.mp hassemble
  -- The context is built with the frozen registry, in which every look-up gives the same.
  have hregistered : context.IsRegistered registry.freeze vocabulary := isRegistered_of_build hbuild
  exact hregistered

/-- In every history of a registry, the contexts that are built with it and those of the documents
that are exported hold registered identifiers only, besides the base IRI in the scope of the root.
Each of them has a scheme or prefix, a colon and a rest, no white space and no printable character
that an IRI forbids, and is well-formed exactly if it has no control character. -/
theorem identifiers_of_history (calls : List Call) (vocabulary : Vocabulary) :
    (∀ tree context, build tree (.ofCalls calls) vocabulary = .ok context →
        context.IsRegistered (.ofCalls calls) vocabulary) ∧
      (∀ catalog root instance? document,
        (exportDocument (.ofCalls calls) catalog vocabulary root instance?).2 = .ok document →
        document.context.IsRegistered (.ofCalls calls) vocabulary) ∧
      ∀ id, (Registry.ofCalls calls).HasIdentifier id →
        Identifier.HasForm id ∧
          (∀ c ∈ id.toList, Text.isBlank c = false ∧ c ∉ Identifier.forbidden) ∧
          (Identifier.IsWellFormed id ↔ ∀ c ∈ id.toList, Identifier.isControl c = false) := by
  refine ⟨fun tree context h => isRegistered_of_build h,
    fun catalog root instance? document h => isRegistered_of_exportDocument h, ?_⟩
  intro id hid
  have hform := Registry.hasForm_of_hasIdentifier hid
  refine ⟨hform, fun c hc => Identifier.isRestChar_iff.mp (hform.isRestChar c hc), ?_⟩
  rw [Identifier.isWellFormed_iff, and_iff_right hform]

/-- A report with a code and a list of parts. -/
def codedReports : Catalog :=
  .ofModels [
    { name := "Report", fields := [
      { name := "code", kind := .scalar .string },
      { name := "parts", kind := .collection (.reference "Part") }] },
    { name := "Part", fields := [{ name := "weight", kind := .scalar .number }] }]

/-- Registrations for a report and its parts. The identifier of the code has a control character in
its rest, and that of the parts, which is refused, a space. -/
def rawHistory : List Call :=
  [.register (.field "Report" "code" { id := some "cw:\x01code" }),
    .register (.field "Report" "parts" { id := some "cw:all parts" }),
    .register (.type "Part" "cw:Part"),
    .register (.field "Part" "weight" { id := some "cw:weight" }), .freeze]

/-- The identifier with a space is refused and all others are held. -/
theorem ofCalls_rawHistory :
    Registry.ofCalls rawHistory =
      (((Registry.empty.putField "Report" "code" { id := some "cw:\x01code" }).putClass
        "Part" "cw:Part").putField "Part" "weight" { id := some "cw:weight" }).freeze := by
  decide +kernel

/-- The context of the reports has registered identifiers only, and the one of the weight, which has
no control character, is well-formed. -/
theorem identifiers_of_history_rawHistory :
    ∃ document context tree,
      (exportDocument (.ofCalls rawHistory) codedReports {} "Report" none).2 = .ok document ∧
      build tree (.ofCalls rawHistory) {} = .ok context ∧
      document.context.IsRegistered (.ofCalls rawHistory) {} ∧
      context.IsRegistered (.ofCalls rawHistory) {} ∧
      (Registry.ofCalls rawHistory).HasIdentifier "cw:weight" ∧
      Identifier.HasForm "cw:weight" ∧
      (Identifier.IsWellFormed "cw:weight" ↔
        ∀ c ∈ "cw:weight".toList, Identifier.isControl c = false) := by
  have hok :
      (exportDocument (.ofCalls rawHistory) codedReports {} "Report" none).2.isOk = true := by
    rw [ofCalls_rawHistory]
    cbv
  obtain ⟨document, hdocument⟩ := Outcome.exists_of_isOk hok
  obtain ⟨tree, context, -, hbuild, -⟩ := compile_eq_ok_iff.mp hdocument
  have hweight : (Registry.ofCalls rawHistory).HasIdentifier "cw:weight" :=
    .inl ⟨"Part", "weight", by decide +kernel⟩
  obtain ⟨hbuilt, hexported, hidentifiers⟩ := identifiers_of_history rawHistory {}
  obtain ⟨hform, -, hwell⟩ := hidentifiers _ hweight
  exact ⟨document, context, tree, hdocument, hbuild, hexported _ _ _ _ hdocument,
    hbuilt _ _ hbuild, hweight, hform, hwell⟩

/-- An identifier with a control character is registered and reaches a document. -/
theorem control_character_admitted :
    ¬ ∀ (calls : List Call) (catalog : Catalog) (vocabulary : Vocabulary) (root : String)
      (instance? : Option Json) (document : Document),
      (exportDocument (.ofCalls calls) catalog vocabulary root instance?).2 = .ok document →
      ∀ term entry, document.context.Holds term entry →
        (Registry.ofCalls calls).HasIdentifier entry.id → Identifier.IsWellFormed entry.id := by
  intro hclaim
  have hwell := hclaim rawHistory codedReports {} "Report" none _
    (by rw [ofCalls_rawHistory]; cbv) "code" (.iri "cw:\x01code") (.here (by simp))
    (.inl ⟨"Report", "code", by decide +kernel⟩)
  have hcontrol := hwell.notControl '\x01' (by decide +kernel)
  cases hcontrol

end Context

end LinkedSchema
