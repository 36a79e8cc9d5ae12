import LinkedSchema.Proofs.Document.Definitions

/-!
# What a refused assembly points at

An assembly is refused for a part of the instance or for a part of a default. The path of the misfit
leads there from the root, or from the field with the default, and the message writes it.
-/

namespace LinkedSchema

namespace SchemaTree

variable {tree : SchemaTree} {context : Scope} {type : String} {instance? : Option Json}

/-- A misfit of the instance points into the instance. -/
theorem exists_instance_of_assemble {misfit : Misfit}
    (h : tree.assemble context type instance? = .error (.misfit misfit)) :
    ∃ value, instance? = some value ∧ tree.PointsAt (.object tree.root) value misfit := by
  rcases assemble_eq_error_iff.mp h with hdefaults | ⟨-, value, found, hvalue, hfound, heq⟩
  · obtain ⟨definition, -, field, -, default, inner, -, -, heq⟩ :=
      exists_default_of_checkAllDefaults hdefaults
    cases heq
  · cases heq
    exact ⟨value, hvalue, pointsAt_of_checkObject hfound⟩

/-- The misfit of a default points into the default, once the step to its field is made. -/
theorem exists_default_of_assemble {owner field : String} {source : Misfit}
    (h : tree.assemble context type instance? = .error (.invalidDefault owner field source)) :
    ∃ definition property default inner, tree.Holds definition ∧ definition.name = owner ∧
      property ∈ definition.fields ∧ property.name = field ∧ property.default = some default ∧
      source = inner.under (.field field) ∧ tree.PointsAt (.kind property.kind) default inner := by
  rcases assemble_eq_error_iff.mp h with hdefaults | ⟨-, value, found, -, -, heq⟩
  · obtain ⟨definition, hmem, property, hproperty, default, inner, hdefault, hinner, heq⟩ :=
      exists_default_of_checkAllDefaults hdefaults
    cases heq
    exact ⟨definition, property, default, inner, holds_iff_mem.mpr hmem, rfl, hproperty, rfl,
      hdefault, rfl, pointsAt_of_check hinner⟩
  · cases heq

/-- An assembly of an introspected tree that is refused for the instance points at the part of the
instance that is to blame, and one that is refused for a default at the part of the default. The
message writes the path to it, from the instance or from the field of the default. -/
theorem assemble_error_pointsAt {catalog : Catalog} {registry : Registry} {root : String}
    (htree : catalog.introspect registry root = .ok tree) {error : AssemblyError}
    (h : tree.assemble context type instance? = .error error) :
    (∀ misfit, error = .misfit misfit →
      (∃ value, instance? = some value ∧ tree.PointsAt (.object tree.root) value misfit) ∧
      (∀ name, misfit.cause ≠ .missingDefinition name) ∧
      ∃ text reason, SpellsPath misfit.path text ∧ misfit.message = text ++ ": " ++ reason) ∧
    ∀ owner field source, error = .invalidDefault owner field source →
      (∃ definition property default path, tree.get? owner = some definition ∧
        property ∈ definition.fields ∧ property.name = field ∧ property.default = some default ∧
        source.path = .field field :: path ∧
        tree.PointsAt (.kind property.kind) default { source with path }) ∧
      (∀ name, source.cause ≠ .missingDefinition name) ∧
      ∃ text reason, SpellsPath source.path text ∧ source.message = text ++ ": " ++ reason := by
  have hmirrors := mirrors_of_introspect htree
  have hdefined : ∀ name, ¬ (ExportError.assembly error).Misses name :=
    fun name => hmirrors.isClosed.not_misses_of_assemble h
  constructor
  · rintro misfit rfl
    have hcause : ∀ name, misfit.cause ≠ .missingDefinition name :=
      fun name hmissing => hdefined name (.given hmissing)
    exact ⟨exists_instance_of_assemble h, hcause, misfit.exists_message hcause⟩
  · rintro owner field source rfl
    have hcause : ∀ name, source.cause ≠ .missingDefinition name :=
      fun name hmissing => hdefined name (.default hmissing)
    refine ⟨?_, hcause, source.exists_message hcause⟩
    obtain ⟨definition, property, default, inner, hdefinition, rfl, hproperty, hname, hdefault,
      rfl, hpoints⟩ := exists_default_of_assemble h
    exact ⟨definition, property, default, inner.path, hmirrors.get?_of_holds hdefinition,
      hproperty, hname, hdefault, rfl, hpoints⟩

/-- Deliveries of lines, where a line may be split into amounts that have a default. -/
def deliveries (default : Json) : Catalog :=
  .ofModels [
    { name := "Delivery", fields := [
      { name := "lines", kind := .collection (.reference "Line") }] },
    { name := "Line", fields := [
      { name := "article", kind := .scalar .string },
      { name := "amounts", kind := .collection (.scalar .integer), default := some default }] }]

/-- A delivery with an amount in words. -/
def spelledDelivery : Json :=
  .obj [("lines", .arr [.obj [("article", .str "nut")],
    .obj [("article", .str "bolt"), ("amounts", .arr [.num (.int 2), .str "two"])]])]

/-- The amount is to blame, in an instance or in the default. -/
theorem assemble_error_pointsAt_deliveries :
    (∃ tree misfit text reason, (deliveries (.arr [])).introspect ∅ "Delivery" = .ok tree ∧
      tree.assemble [] "Delivery" (some spelledDelivery) = .error (.misfit misfit) ∧
      spelledDelivery.follow misfit.path = some (.str "two") ∧
      tree.PointsAt (.object tree.root) spelledDelivery misfit ∧
      SpellsPath misfit.path text ∧ misfit.message = text ++ ": " ++ reason) ∧
    ∃ tree source definition property default path,
      (deliveries (.arr [.str "two"])).introspect ∅ "Delivery" = .ok tree ∧
      tree.assemble [] "Delivery" none = .error (.invalidDefault "Line" "amounts" source) ∧
      tree.get? "Line" = some definition ∧ property ∈ definition.fields ∧
      property.default = some default ∧ source.path = .field "amounts" :: path ∧
      tree.PointsAt (.kind property.kind) default { source with path } := by
  have hinstance : ∃ tree misfit,
      (deliveries (.arr [])).introspect ∅ "Delivery" = .ok tree ∧
      tree.assemble [] "Delivery" (some spelledDelivery) = .error (.misfit misfit) ∧
      spelledDelivery.follow misfit.path = some (.str "two") :=
    ⟨_, _, by cbv, by cbv, by cbv⟩
  have hdefault : ∃ tree source,
      (deliveries (.arr [.str "two"])).introspect ∅ "Delivery" = .ok tree ∧
      tree.assemble [] "Delivery" none = .error (.invalidDefault "Line" "amounts" source) :=
    ⟨_, _, by cbv, by cbv⟩
  obtain ⟨tree, misfit, htree, herror, hpart⟩ := hinstance
  obtain ⟨found, source, hfound, hrefused⟩ := hdefault
  obtain ⟨⟨value, hvalue, hpoints⟩, -, text, reason, hspells, hmessage⟩ :=
    (assemble_error_pointsAt htree herror).1 misfit rfl
  cases hvalue
  obtain ⟨⟨definition, property, default, path, hget, hproperty, -, hvalue, hpath, hinner⟩, -⟩ :=
    (assemble_error_pointsAt hfound hrefused).2 "Line" "amounts" source rfl
  exact ⟨⟨tree, misfit, text, reason, htree, herror, hpart, hpoints, hspells, hmessage⟩,
    found, source, definition, property, default, path, hfound, hrefused, hget, hproperty, hvalue,
    hpath, hinner⟩

end SchemaTree

end LinkedSchema
