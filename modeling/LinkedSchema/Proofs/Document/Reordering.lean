import LinkedSchema.Proofs.Conformity.Reordering
import LinkedSchema.Proofs.Context.Resolution
import LinkedSchema.Proofs.Context.Reordering
import LinkedSchema.Proofs.Document.Data

/-!
# The order of declaration in a document

Two catalogs that differ in the order of the fields of their models only have the same documents, as
far as the order of properties and of required names goes, but for one thing: types that refer to
each other may differ in which is a plain term in the scope of the other. Where the references make
no direct loop, an export succeeds for both catalogs or for none, unless a field has the name and the
identifier of a type of such a pair.
-/

namespace LinkedSchema

/-- Two schemas of one type show the same properties and require the same names in some order. -/
inductive SchemaReordered : Json → Json → Prop
  | type {properties others : Table Json} {required names : List String} (title : String) :
    properties.Perm others → required.Perm names →
    SchemaReordered
      (.obj [("properties", .obj properties), ("required", .arr (required.map .str)),
        ("title", .str title), ("type", .str "object")])
      (.obj [("properties", .obj others), ("required", .arr (names.map .str)),
        ("title", .str title), ("type", .str "object")])

/-- Two documents of a root say the same but for the order of properties and of required names, and
but for whether some terms have a scope. -/
structure Document.Reordered (root : String) (exempt : String → String → Prop)
    (document other : Document) : Prop where
  context : document.context.Agrees root exempt other.context
  definitions : ∀ name, Option.Rel SchemaReordered (Table.get? document.definitions name)
    (Table.get? other.definitions name)
  properties : document.properties.Perm other.properties
  required : document.required.Perm other.required
  title : document.title = other.title
  type : document.type = other.type
  data : document.data = other.data

/-- The reason for which an export can be refused with the fields in one order and succeed with them
in another: a field has the name and the identifier of a type to which its own type refers and which
refers back. -/
inductive ExportError.DependsOnOrder (catalog : Catalog) (registry : Registry) (root : String) :
    ExportError → Prop
  | collision {type term id : String} :
    (∃ model, catalog.get? type = some model ∧ ∃ field ∈ model.fields, field.name = term) →
    registry.fieldId? type term = some id → registry.classId? term = some id →
    catalog.Entwined registry root type term →
    DependsOnOrder catalog registry root (.context (.termCollision type term))

namespace TypeDefinition.Reordered

variable {definition other : TypeDefinition}

/-- Reordered definitions have the same properties in some order. -/
theorem properties_perm (h : definition.Reordered other)
    (hdistinct : definition.HasDistinctFields) : definition.properties.Perm other.properties := by
  have hother : other.HasDistinctFields := (h.fields.map Property.name).nodup_iff.mp hdistinct
  rw [properties_eq_map hdistinct, properties_eq_map hother]
  exact h.fields.map _

/-- Reordered definitions require the same names in some order. -/
theorem required_perm (h : definition.Reordered other) :
    definition.required.Perm other.required :=
  (h.fields.filter _).map _

/-- The schemas of reordered definitions differ in their order only. -/
theorem schema (h : definition.Reordered other) (hdistinct : definition.HasDistinctFields) :
    SchemaReordered definition.schema other.schema := by
  unfold TypeDefinition.schema TypeDefinition.requiredJson
  rw [← h.name]
  exact .type definition.name (h.properties_perm hdistinct) h.required_perm

end TypeDefinition.Reordered

namespace SchemaTree.Reordered

variable {tree other : SchemaTree}

/-- Every definition of a tree has its counterpart in a reordered one. -/
theorem exists_holds (h : tree.Reordered other) {definition : TypeDefinition}
    (hdefinition : tree.Holds definition) :
    ∃ found, other.Holds found ∧ definition.Reordered found := by
  rcases hdefinition with rfl | ⟨name, hnested⟩
  · exact ⟨other.root, .inl rfl, h.root⟩
  · obtain ⟨found, hfound, hdefinitions⟩ := exists_of_rel (h.nested name) hnested
    exact ⟨found, .inr ⟨name, hfound⟩, hdefinitions⟩

/-- Where the defaults of a tree pass, so do those of a reordered one. -/
theorem defaults_pass (h : tree.Reordered other)
    (hpass : tree.checkAllDefaults (tree.root :: tree.nested.values) = .ok ()) :
    other.checkAllDefaults (other.root :: other.nested.values) = .ok () := by
  rw [defaults_pass_iff] at hpass ⊢
  intro definition hdefinition field hfield default hdefault
  obtain ⟨found, hfound, hdefinitions⟩ := h.symm.exists_holds hdefinition
  have hsame := hdefinitions.fields.mem_iff.mp hfield
  exact (h.passes_iff field.kind default).mp (hpass found hfound field hsame default hdefault)

/-- The schemas of the nested types differ in their order only. -/
theorem definitions (h : tree.Reordered other) (hclosed : tree.IsClosed) (name : String) :
    Option.Rel SchemaReordered (Table.get? tree.definitions name)
      (Table.get? other.definitions name) := by
  have hnested := h.nested name
  rw [get?_definitions, get?_definitions]
  cases hdefinition : tree.nested.get? name with
  | none =>
    rw [hdefinition] at hnested
    cases hfound : other.nested.get? name with
    | none => exact .none
    | some found =>
      rw [hfound] at hnested
      cases hnested
  | some definition =>
    obtain ⟨found, hfound, hdefinitions⟩ := exists_of_rel hnested hdefinition
    rw [hfound]
    exact .some (hdefinitions.schema (hclosed.distinct definition (.inr ⟨name, hdefinition⟩)))

end SchemaTree.Reordered

section Compile

variable {registry : Registry} {catalog : Catalog} {vocabulary : Vocabulary} {root : String}
  {instance? : Option Json}

/-- A document is compiled where each of the three parts succeeds. -/
theorem compile_eq_ok_iff {document : Document} :
    compile registry catalog vocabulary root instance? = .ok document ↔
      ∃ tree context, catalog.introspect registry root = .ok tree ∧
        Context.build tree registry vocabulary = .ok context ∧
        tree.assemble context root instance? = .ok document := by
  simp only [compile, Outcome.bind_eq_ok_iff, Outcome.mapError_eq_ok_iff]
  constructor
  · rintro ⟨tree, htree, context, hcontext, hdocument⟩
    exact ⟨tree, context, htree, hcontext, hdocument⟩
  · rintro ⟨tree, context, htree, hcontext, hdocument⟩
    exact ⟨tree, htree, context, hcontext, hdocument⟩

/-- A refused context refuses the document. -/
theorem compile_of_build_error {tree : SchemaTree} {error : ContextError}
    (htree : catalog.introspect registry root = .ok tree)
    (h : Context.build tree registry vocabulary = .error error) :
    compile registry catalog vocabulary root instance? = .error (.context error) := by
  simp [compile, htree, h, Except.mapError, bind, Except.bind]

end Compile

namespace Catalog.Reordered

variable {catalog other : Catalog} {registry : Registry} {vocabulary : Vocabulary} {root : String}

/-- The documents of reordered catalogs differ in their order only, and in the scopes of entwined
types. -/
theorem documents (h : catalog.Reordered other) {document found : Document}
    (hdocument : compile registry catalog vocabulary root none = .ok document)
    (hfound : compile registry other vocabulary root none = .ok found) :
    document.Reordered root (catalog.Entwined registry root) found := by
  obtain ⟨tree, context, htree, hcontext, hassemble⟩ := compile_eq_ok_iff.mp hdocument
  obtain ⟨image, counterpart, himage, hcounterpart, hassembled⟩ := compile_eq_ok_iff.mp hfound
  have htrees := h.trees htree himage
  have hmirrors := SchemaTree.mirrors_of_introspect htree
  have hclosed := hmirrors.isClosed
  have hagrees : context.Agrees root (catalog.Entwined registry root) counterpart := by
    rcases Context.build_reordered hmirrors (SchemaTree.mirrors_of_introspect himage) htrees
      hcontext with ⟨same, hsame, hagrees⟩ | ⟨type, term, id, herror, -⟩
    · obtain rfl : same = counterpart := Except.ok.inj (hsame.symm.trans hcounterpart)
      exact hagrees
    · cases herror.symm.trans hcounterpart
  obtain ⟨-, data, hdata, rfl⟩ := SchemaTree.assemble_eq_ok_iff.mp hassemble
  obtain ⟨-, others, hothers, rfl⟩ := SchemaTree.assemble_eq_ok_iff.mp hassembled
  obtain rfl : data = others := Except.ok.inj (hdata.symm.trans hothers)
  exact {
    context := hagrees
    definitions := htrees.definitions hclosed
    properties := htrees.root.properties_perm (hclosed.distinct tree.root (.inl rfl))
    required := htrees.root.required_perm
    title := htrees.root.name
    type := rfl
    data := rfl }

/-- Without a loop of direct references a document of one catalog has a counterpart for a reordered
one, or this is refused for the reason that depends on the order. -/
theorem exists_document (h : catalog.Reordered other) (hfree : catalog.IsLoopFree root)
    {document : Document}
    (hdocument : compile registry catalog vocabulary root none = .ok document) :
    (∃ found, compile registry other vocabulary root none = .ok found) ∨
      ∃ error, compile registry other vocabulary root none = .error error ∧
        error.DependsOnOrder catalog registry root := by
  obtain ⟨tree, context, htree, hcontext, hassemble⟩ := compile_eq_ok_iff.mp hdocument
  obtain ⟨image, himage⟩ := h.introspect hfree htree
  have htrees := h.trees htree himage
  rcases Context.build_reordered (SchemaTree.mirrors_of_introspect htree)
    (SchemaTree.mirrors_of_introspect himage) htrees hcontext with
    ⟨counterpart, hcounterpart, -⟩ | ⟨type, term, id, herror, hfield, hid, hclass, hentwined⟩
  · obtain ⟨hdefaults, -⟩ := SchemaTree.assemble_eq_ok_iff.mp hassemble
    exact .inl ⟨_, compile_eq_ok_iff.mpr ⟨image, counterpart, himage, hcounterpart,
      SchemaTree.assemble_eq_ok_iff.mpr ⟨htrees.defaults_pass hdefaults, [], rfl, rfl⟩⟩⟩
  · exact .inr ⟨_, compile_of_build_error himage herror, .collision hfield hid hclass hentwined⟩

/-- The same types are entwined in reordered catalogs. -/
theorem entwined_eq (h : catalog.Reordered other) :
    catalog.Entwined registry root = other.Entwined registry root := by
  unfold Entwined RefersInside RefersToClass
  rw [h.refers_eq]

/-- A reason that depends on the order of one catalog depends on that of the other. -/
theorem dependsOnOrder (h : catalog.Reordered other) {error : ExportError}
    (herror : error.DependsOnOrder catalog registry root) :
    error.DependsOnOrder other registry root := by
  cases herror with
  | collision hfield hid hclass hentwined =>
    rw [h.entwined_eq] at hentwined
    exact .collision (h.exists_field hfield) hid hclass hentwined

/-- Where the export of one catalog succeeds and that of a reordered one is refused, the reason
depends on the order. -/
theorem dependsOnOrder_of_refused (h : catalog.Reordered other) (hfree : catalog.IsLoopFree root)
    {document : Document} {error : ExportError}
    (hdocument : (exportDocument registry catalog vocabulary root none).2 = .ok document)
    (herror : (exportDocument registry other vocabulary root none).2 = .error error) :
    error.DependsOnOrder catalog registry root := by
  rcases h.exists_document hfree hdocument with ⟨found, hfound⟩ | ⟨reason, hreason, hdepends⟩
  · cases hfound.symm.trans herror
  · obtain rfl : reason = error := Except.error.inj (hreason.symm.trans herror)
    -- Freezing leaves all identifiers as they are.
    cases hdepends with
    | collision hfield hid hclass hentwined => exact .collision hfield hid hclass hentwined

/-- Where there is no such reason, a reordered catalog is exported if the catalog is. -/
theorem exists_found (h : catalog.Reordered other) (hfree : catalog.IsLoopFree root)
    (hnone : ∀ error : ExportError, ¬ error.DependsOnOrder catalog registry root)
    {document : Document}
    (hdocument : (exportDocument registry catalog vocabulary root none).2 = .ok document) :
    ∃ found, (exportDocument registry other vocabulary root none).2 = .ok found := by
  cases hother : (exportDocument registry other vocabulary root none).2 with
  | ok found => exact ⟨found, rfl⟩
  | error error =>
    exact absurd (h.dependsOnOrder_of_refused hfree hdocument hother) (hnone error)

end Catalog.Reordered

/-- Two catalogs that differ in the order of the fields of their models only are exported to the same
documents, up to the order of properties and required names and but for whether entwined types have
a scope inside each other's. Where no loop of direct references is in reach of the root, an export
without an instance that succeeds for one of them only is refused for the other for a reason that
depends on the order, and without such a reason both succeed or none. -/
theorem exportDocument_reordered {registry : Registry} {catalog other : Catalog}
    (h : catalog.Reordered other) (vocabulary : Vocabulary) (root : String) :
    (∀ document found, (exportDocument registry catalog vocabulary root none).2 = .ok document →
        (exportDocument registry other vocabulary root none).2 = .ok found →
        document.Reordered root (catalog.Entwined registry root) found) ∧
      (catalog.IsLoopFree root →
        (∀ document error, (exportDocument registry catalog vocabulary root none).2 = .ok document →
          (exportDocument registry other vocabulary root none).2 = .error error →
          error.DependsOnOrder catalog registry root) ∧
        (∀ found error, (exportDocument registry other vocabulary root none).2 = .ok found →
          (exportDocument registry catalog vocabulary root none).2 = .error error →
          error.DependsOnOrder catalog registry root) ∧
        ((∀ error : ExportError, ¬ error.DependsOnOrder catalog registry root) →
          ((∃ document, (exportDocument registry catalog vocabulary root none).2 = .ok document) ↔
            ∃ found, (exportDocument registry other vocabulary root none).2 = .ok found))) := by
  constructor
  · intro document found hdocument hfound
    -- Both are compiled from the frozen registry, which has the same identifiers.
    have hreordered := h.documents hdocument hfound
    exact hreordered
  · intro hfree
    have hother := h.isLoopFree hfree
    refine ⟨?_, ?_, ?_⟩
    · intro document error hdocument herror
      exact h.dependsOnOrder_of_refused hfree hdocument herror
    · intro found error hfound herror
      exact h.symm.dependsOnOrder (h.symm.dependsOnOrder_of_refused hother hfound herror)
    · intro hnone
      constructor
      · rintro ⟨document, hdocument⟩
        exact h.exists_found hfree hnone hdocument
      · rintro ⟨found, hfound⟩
        refine h.symm.exists_found hother ?_ hfound
        exact fun error herror => hnone error (h.symm.dependsOnOrder herror)

/-- Reordered catalogs stay so when a model is defined in both. -/
theorem Catalog.Reordered.define {catalog other : Catalog} (h : catalog.Reordered other)
    (model : Model) : (catalog.define model).Reordered (other.define model) := by
  intro name
  rw [get?_define, get?_define]
  split
  · exact .some ⟨rfl, .refl _⟩
  · exact h name

/-- A model may be replaced by one with its fields in another order. -/
theorem Catalog.reordered_define {catalog : Catalog} {model found : Model}
    (hfound : catalog.get? model.name = some found) (h : found.Reordered model) :
    catalog.Reordered (catalog.define model) := by
  intro name
  rw [get?_define]
  split
  · next hname =>
    subst hname
    rw [hfound]
    exact .some h
  · cases catalog.get? name with
    | none => exact .none
    | some other => exact .some ⟨rfl, .refl _⟩

/-- The root of the two mutual types with its lists the other way round. -/
def repliesFirst : Catalog :=
  Context.mutualModels.define
    { name := "Root", fields := [
      { name := "replies", kind := .collection (.reference "Reply") },
      { name := "letters", kind := .collection (.reference "Letter") }] }

/-- The two lists of the root are all that is reordered. -/
theorem reordered_repliesFirst : Context.mutualModels.Reordered repliesFirst := by
  have hroot : Context.mutualModels.get? "Root" = some { name := "Root", fields := [
      { name := "letters", kind := .collection (.reference "Letter") },
      { name := "replies", kind := .collection (.reference "Reply") }] } := by
    cbv
  exact Catalog.reordered_define hroot ⟨rfl, .swap _ _ _⟩

/-- A letter with a field that has the name of the other type. -/
def replyingLetter : Model :=
  { name := "Letter", fields := [
    { name := "Reply", kind := .scalar .string },
    { name := "answers", kind := .collection (.reference "Reply") }] }

/-- Identifiers for the two types, the one of the replies also for the field that has their name. -/
def replyingRegistry : Registry :=
  Context.mutualRegistry.putField "Letter" "Reply" { id := some "cw:Reply" }

/-- The documents of the two mutual types agree. Where a letter has the field, only the export with
the replies first succeeds, and the field is the reason for which the other is refused. -/
theorem exportDocument_reordered_repliesFirst :
    (Context.mutualModels.Reordered repliesFirst ∧ ∃ document found,
      (exportDocument Context.mutualRegistry Context.mutualModels {} "Root" none).2 =
        .ok document ∧
      (exportDocument Context.mutualRegistry repliesFirst {} "Root" none).2 = .ok found ∧
      document.Reordered "Root"
        (Context.mutualModels.Entwined Context.mutualRegistry "Root") found) ∧
    (repliesFirst.define replyingLetter).Reordered (Context.mutualModels.define replyingLetter) ∧
      (repliesFirst.define replyingLetter).IsLoopFree "Root" ∧ ∃ document error,
      (exportDocument replyingRegistry (repliesFirst.define replyingLetter) {} "Root" none).2 =
        .ok document ∧
      (exportDocument replyingRegistry (Context.mutualModels.define replyingLetter) {} "Root"
        none).2 = .error error ∧
      error.DependsOnOrder (repliesFirst.define replyingLetter) replyingRegistry "Root" := by
  have hsame : ∃ document found,
      (exportDocument Context.mutualRegistry Context.mutualModels {} "Root" none).2 =
        .ok document ∧
      (exportDocument Context.mutualRegistry repliesFirst {} "Root" none).2 = .ok found :=
    ⟨_, _, by cbv, by cbv⟩
  have hrefused : ∃ document error,
      (exportDocument replyingRegistry (repliesFirst.define replyingLetter) {} "Root" none).2 =
        .ok document ∧
      (exportDocument replyingRegistry (Context.mutualModels.define replyingLetter) {} "Root"
        none).2 = .error error :=
    ⟨_, _, by cbv, by cbv⟩
  obtain ⟨document, found, hdocument, hfound⟩ := hsame
  obtain ⟨replied, error, hreplied, herror⟩ := hrefused
  have hreordered := reordered_repliesFirst.symm.define replyingLetter
  have hfree : (repliesFirst.define replyingLetter).IsLoopFree "Root" :=
    Catalog.isLoopFree_of_indirect (by decide +kernel)
  obtain ⟨hagree, -⟩ := exportDocument_reordered reordered_repliesFirst {} "Root"
  obtain ⟨-, horder⟩ := exportDocument_reordered hreordered {} "Root"
  exact ⟨⟨reordered_repliesFirst, document, found, hdocument, hfound,
    hagree document found hdocument hfound⟩, hreordered, hfree, replied, error, hreplied, herror,
    (horder hfree).1 replied error hreplied herror⟩

/-- The first of the two lists of the root decides which of the types is a plain term in the scope of
the other, and so the contexts differ. It decides too whether the field of a letter stands beside a
plain term of its name, with which it agrees, or beside a scope, with which it collides. -/
theorem export_differs_by_order :
    (Context.mutualModels.Reordered repliesFirst ∧ ∃ document found,
      (exportDocument Context.mutualRegistry Context.mutualModels {} "Root" none).2 =
        .ok document ∧
      (exportDocument Context.mutualRegistry repliesFirst {} "Root" none).2 = .ok found ∧
      ¬ document.context.toJson.equal found.context.toJson = true) ∧
    (Context.mutualModels.define replyingLetter).Reordered (repliesFirst.define replyingLetter) ∧
      (exportDocument replyingRegistry (Context.mutualModels.define replyingLetter) {} "Root"
        none).2 = .error (.context (.termCollision "Letter" "Reply")) ∧
      ¬ ((∃ document, (exportDocument replyingRegistry
            (Context.mutualModels.define replyingLetter) {} "Root" none).2 = .ok document) ↔
          ∃ found, (exportDocument replyingRegistry
            (repliesFirst.define replyingLetter) {} "Root" none).2 = .ok found) := by
  have hcollision : (exportDocument replyingRegistry (Context.mutualModels.define replyingLetter)
      {} "Root" none).2 = .error (.context (.termCollision "Letter" "Reply")) := by
    cbv
  refine ⟨⟨reordered_repliesFirst, _, _, by cbv, by cbv, by decide⟩,
    reordered_repliesFirst.define replyingLetter, hcollision, ?_⟩
  intro hiff
  obtain ⟨document, hdocument⟩ := hiff.mpr ⟨_, by cbv⟩
  cases hcollision.symm.trans hdocument

end LinkedSchema
