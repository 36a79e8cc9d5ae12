import LinkedSchema.Proofs.Context.Collision
import LinkedSchema.Proofs.Document.Instance

/-!
# Definitions that exports look up

Two parts of an export look up the definition of a type: the context, where a type is linked to, and
the check of a value, where a reference is met. Both do so for types that the tree mentions, and the
tree of an introspection defines all of these. So neither look-up fails, in the defaults as little as
in an instance, and where a member of a union is passed over, this is for the value and not for a
definition that is missing.
-/

namespace LinkedSchema

/-- A failed export comes from a type without a definition: the context needs it, or a part of the
instance, or a part of a default. -/
inductive ExportError.Misses (name : String) : ExportError → Prop
  | context : Misses name (.context (.missingDefinition name))
  | given {misfit : Misfit} : misfit.cause = .missingDefinition name →
    Misses name (.assembly (.misfit misfit))
  | default {type field : String} {misfit : Misfit} : misfit.cause = .missingDefinition name →
    Misses name (.assembly (.invalidDefault type field misfit))

namespace SchemaTree

variable {tree : SchemaTree} {definition : TypeDefinition} {value : Json} {misfit : Misfit}

/-- In a closed tree no value is refused at a kind of the tree for a definition that is missing. -/
theorem IsClosed.cause_of_check (h : tree.IsClosed) {kind : Kind} (hkind : tree.Defines kind)
    (hmisfit : tree.check kind value = .error misfit) (name : String) :
    misfit.cause ≠ .missingDefinition name :=
  h.ne_missingDefinition (pointsAt_of_check hmisfit) hkind name

/-- Nor is any at a definition of the tree. -/
theorem IsClosed.cause_of_checkObject (h : tree.IsClosed) (hdefinition : tree.Holds definition)
    (hmisfit : tree.checkObject definition value = .error misfit) (name : String) :
    misfit.cause ≠ .missingDefinition name :=
  h.ne_missingDefinition (pointsAt_of_checkObject hmisfit) hdefinition name

/-- The first default of a type that does not fit its kind is to blame. -/
theorem exists_default_of_checkDefaults {type : String} {fields : List Property}
    {error : AssemblyError} (h : tree.checkDefaults type fields = .error error) :
    ∃ field ∈ fields, ∃ default misfit, field.default = some default ∧
      tree.check field.kind default = .error misfit ∧
      .invalidDefault type field.name (misfit.under (.field field.name)) = error := by
  induction fields with
  | nil => cases h
  | cons field fields ih =>
    rw [checkDefaults] at h
    split at h
    · next misfit hmap =>
      cases h
      obtain ⟨default, hdefault, hmisfit⟩ := Option.map_eq_some_iff.mp hmap
      exact ⟨field, List.mem_cons_self, default, misfit, hdefault, hmisfit, rfl⟩
    · obtain ⟨other, hother, hblamed⟩ := ih h
      exact ⟨other, List.mem_cons_of_mem _ hother, hblamed⟩

/-- Of several types the first that has a default which does not fit is to blame. -/
theorem exists_default_of_checkAllDefaults {definitions : List TypeDefinition}
    {error : AssemblyError} (h : tree.checkAllDefaults definitions = .error error) :
    ∃ definition ∈ definitions, ∃ field ∈ definition.fields, ∃ default misfit,
      field.default = some default ∧ tree.check field.kind default = .error misfit ∧
      .invalidDefault definition.name field.name (misfit.under (.field field.name)) = error := by
  induction definitions with
  | nil => cases h
  | cons definition definitions ih =>
    rw [checkAllDefaults] at h
    rcases Outcome.bind_eq_error_iff.mp h with h | ⟨-, -, h⟩
    · exact ⟨definition, List.mem_cons_self, exists_default_of_checkDefaults h⟩
    · obtain ⟨other, hother, hblamed⟩ := ih h
      exact ⟨other, List.mem_cons_of_mem _ hother, hblamed⟩

/-- No assembly of a closed tree is refused for a definition that is missing. -/
theorem IsClosed.not_misses_of_assemble (h : tree.IsClosed) {context : Scope} {type name : String}
    {instance? : Option Json} {error : AssemblyError}
    (herror : tree.assemble context type instance? = .error error) :
    ¬ (ExportError.assembly error).Misses name := by
  rcases assemble_eq_error_iff.mp herror with hdefaults | ⟨-, value, misfit, -, hmisfit, rfl⟩
  · obtain ⟨definition, hmem, field, hfield, default, misfit, -, hmisfit, rfl⟩ :=
      exists_default_of_checkAllDefaults hdefaults
    have hdefines : tree.Defines field.kind :=
      h.defined definition (holds_iff_mem.mpr hmem) field hfield
    intro hmisses
    cases hmisses with
    | default hcause => exact h.cause_of_check hdefines hmisfit name hcause
  · intro hmisses
    cases hmisses with
    | given hcause => exact h.cause_of_checkObject (.inl rfl) hmisfit name hcause

/-- No member of a union of a closed tree passes a value over for a definition that is missing. -/
theorem IsClosed.cause_of_member (h : tree.IsClosed) {members : List Kind} {kind : Kind}
    (hunion : tree.HasKind (.union members)) (hmem : kind ∈ members)
    (hmisfit : tree.check kind value = .error misfit) (name : String) :
    misfit.cause ≠ .missingDefinition name := by
  refine h.cause_of_check ?_ hmisfit name
  exact (h.defines hunion).of_mentions fun target htarget => .union hmem htarget

end SchemaTree

/-- No export ends in a definition that is missing, whether the context needs it, the instance or a
default. And in the tree of an export no member of a union refuses any value for such a definition. -/
theorem exportDocument_defined (registry : Registry) (catalog : Catalog) (vocabulary : Vocabulary)
    (root : String) :
    (∀ instance? error,
        (exportDocument registry catalog vocabulary root instance?).2 = .error error →
        ∀ name, ¬ error.Misses name) ∧
      ∀ tree, catalog.introspect registry root = .ok tree →
        ∀ members, tree.HasKind (.union members) → ∀ kind ∈ members, ∀ value misfit,
          tree.check kind value = .error misfit →
          ∀ name, misfit.cause ≠ .missingDefinition name := by
  constructor
  · intro instance? error h name
    rcases compile_eq_error_iff.mp h with ⟨inner, -, rfl⟩ | ⟨tree, htree, h⟩
    · nofun
    have hmirrors := SchemaTree.mirrors_of_introspect htree
    rcases h with ⟨inner, hcontext, rfl⟩ | ⟨context, -, inner, hassemble, rfl⟩
    · obtain ⟨type, term, rfl⟩ := Context.exists_termCollision_of_build hmirrors hcontext
      nofun
    · exact hmirrors.isClosed.not_misses_of_assemble hassemble
  · intro tree htree members hunion kind hmem value misfit hmisfit name
    have hclosed := (SchemaTree.mirrors_of_introspect htree).isClosed
    exact hclosed.cause_of_member hunion hmem hmisfit name

/-- Notes that may be taken from another note or from a person, who has notes in turn. -/
def citedNotes : Catalog :=
  .ofModels [
    { name := "Note", fields := [{ name := "text", kind := .scalar .string },
      { name := "source", kind := .nullable (.union [.reference "Note", .reference "Person"]),
        default := some (.obj [("name", .str "Ada")]) }] },
    { name := "Person", fields := [{ name := "name", kind := .scalar .string },
      { name := "notes", kind := .collection (.reference "Note"), default := some (.arr []) }] }]

/-- A registry with classes for both. -/
def noteClasses : Registry :=
  ((∅ : Registry).putClass "Note" "cw:Note").putClass "Person" "cw:Person"

/-- A note that is taken from neither. -/
def uncitedNote : Json :=
  .obj [("text", .str "see above"), ("source", .obj [("text", .num (.int 1))])]

/-- The source of a note is a note, a person or nothing. -/
def noteSources : List Kind :=
  [.reference "Note", .reference "Person", .scalar .null]

/-- The note is refused for what it is, and not for a type that has no definition. -/
theorem exportDocument_defined_uncitedNote :
    (∃ error, (exportDocument noteClasses citedNotes {} "Note" (some uncitedNote)).2 =
        .error error ∧ ∀ name, ¬ error.Misses name) ∧
      ∃ tree, citedNotes.introspect noteClasses "Note" = .ok tree ∧
        tree.HasKind (.union noteSources) ∧
        ∃ misfit, tree.check (.reference "Person") uncitedNote = .error misfit ∧
          ∀ name, misfit.cause ≠ .missingDefinition name := by
  obtain ⟨hexport, hunions⟩ := exportDocument_defined noteClasses citedNotes {} "Note"
  have hrefused : ∃ error,
      (exportDocument noteClasses citedNotes {} "Note" (some uncitedNote)).2 = .error error :=
    ⟨_, by cbv⟩
  have htree : ∃ tree, citedNotes.introspect noteClasses "Note" = .ok tree ∧
      (∃ field ∈ tree.root.fields, field.kind = .union noteSources) ∧
      ∃ misfit, tree.check (.reference "Person") uncitedNote = .error misfit :=
    ⟨_, by cbv, ⟨_, List.mem_cons_of_mem _ List.mem_cons_self, rfl⟩, _, by cbv⟩
  obtain ⟨error, herror⟩ := hrefused
  obtain ⟨tree, htree, ⟨field, hfield, hkind⟩, misfit, hmisfit⟩ := htree
  have hunion : tree.HasKind (.union noteSources) :=
    ⟨tree.root, .inl rfl, field, hfield, hkind ▸ .self⟩
  exact ⟨⟨error, herror, hexport _ error herror⟩, tree, htree, hunion, misfit, hmisfit,
    hunions tree htree _ hunion (.reference "Person") (by simp [noteSources]) _ misfit hmisfit⟩

end LinkedSchema
