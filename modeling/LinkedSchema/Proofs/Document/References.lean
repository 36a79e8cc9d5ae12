import LinkedSchema.Proofs.Document.Members
import LinkedSchema.Proofs.Document.Reordering
import LinkedSchema.Proofs.Json.UriFragment
import LinkedSchema.Proofs.Schema.References

/-!
# References in documents

The schema of a field stands among the properties of the root or of a definition. The references in
it are exactly the places of the types that the declared kind mentions, and each of these types has
a definition in the document. A reference is read back as this place only if the name of the type is
plain, for the name is written into it as it is.
-/

namespace LinkedSchema

/-- The places where the schema of a field of a type stands in the document of a root. -/
inductive FieldPlace (root field : String) : String → Pointer → Prop
  | root : FieldPlace root field root ["properties", field]
  | definition {type : String} : FieldPlace root field type ["$defs", type, "properties", field]

variable {registry : Registry} {catalog : Catalog} {vocabulary : Vocabulary} {root : String}
  {tree : SchemaTree} {context : Scope} {type : String} {instance? : Option Json}
  {document : Document}

/-- A pointer leads on from where its first part leads. -/
theorem Json.at?_append (value : Json) (first second : Pointer) :
    value.at? (first ++ second) = (value.at? first).bind (·.at? second) := by
  induction first generalizing value with
  | nil => rfl
  | cons step steps ih => simp only [List.cons_append, at?, ih, Option.bind_assoc]

/-- A key leads to the member of an object. -/
theorem Json.at?_key (members : Table Json) (key : String) :
    (Json.obj members).at? [key] = Table.get? members key :=
  Option.bind_fun_some _

/-- The definition of a nested type stands in the document under the name of the type. -/
theorem SchemaTree.at?_definition (h : catalog.introspect registry root = .ok tree)
    (hdocument : tree.assemble context type instance? = .ok document) (target : String) :
    document.toJson.at? ["$defs", target] = (tree.nested.get? target).map (·.schema) := by
  have hkeys := nodup_keys_of_assemble h hdocument
  have hstep : document.toJson.step? "$defs" = some (.obj document.definitions) :=
    Document.step?_structural hkeys .definitions
  rw [Json.at?, hstep, Option.bind_some, Json.at?_key, (schema_of_assemble hdocument).1,
    get?_definitions]

/-- The properties of a document are the schemas of the fields of the root. -/
theorem SchemaTree.at?_property_iff (h : catalog.introspect registry root = .ok tree)
    (hdocument : tree.assemble context type instance? = .ok document) {field : String}
    {schema : Json} :
    document.toJson.at? ["properties", field] = some schema ↔
      ∃ property ∈ tree.root.fields, property.name = field ∧ schema = property.schema := by
  have hdistinct := (mirrors_of_introspect h).isClosed.distinct tree.root (.inl rfl)
  have hkeys := nodup_keys_of_assemble h hdocument
  have hstep : document.toJson.step? "properties" = some (.obj document.properties) :=
    Document.step?_structural hkeys .properties
  obtain ⟨-, data, -, rfl⟩ := assemble_eq_ok_iff.mp hdocument
  rw [Json.at?, hstep, Option.bind_some, Json.at?_key]
  exact TypeDefinition.get?_properties_iff hdistinct

/-- The properties of a definition are the schemas of the fields of a nested type. -/
theorem SchemaTree.at?_definition_property_iff (h : catalog.introspect registry root = .ok tree)
    (hdocument : tree.assemble context type instance? = .ok document) {owner field : String}
    {schema : Json} :
    document.toJson.at? ["$defs", owner, "properties", field] = some schema ↔
      ∃ definition, tree.nested.get? owner = some definition ∧
        ∃ property ∈ definition.fields, property.name = field ∧ schema = property.schema := by
  have hclosed := (mirrors_of_introspect h).isClosed
  have happend : (["$defs", owner, "properties", field] : Pointer) =
      ["$defs", owner] ++ ["properties", field] := rfl
  have hproperty : ∀ definition, tree.nested.get? owner = some definition →
      (definition.schema.at? ["properties", field] = some schema ↔
        ∃ property ∈ definition.fields, property.name = field ∧ schema = property.schema) := by
    intro definition hnested
    have hstep : definition.schema.step? "properties" = some (.obj definition.properties) := rfl
    rw [Json.at?, hstep, Option.bind_some, Json.at?_key]
    exact TypeDefinition.get?_properties_iff (hclosed.distinct definition (.inr ⟨owner, hnested⟩))
  rw [happend, Json.at?_append, at?_definition h hdocument]
  cases hnested : tree.nested.get? owner with
  | none => simp
  | some definition => simp [hproperty definition hnested]

/-- Every field of a type that is reachable from the root has its schema at some place. -/
theorem SchemaTree.exists_place_of_field (h : catalog.introspect registry root = .ok tree)
    (hdocument : tree.assemble context type instance? = .ok document) {owner : String}
    {model : Model} {declared : FieldDecl} (hreaches : catalog.Reaches root owner)
    (hmodel : catalog.get? owner = some model) (hdeclared : declared ∈ model.fields) :
    ∃ place schema, FieldPlace root declared.name owner place ∧
      document.toJson.at? place = some schema := by
  have hmirrors := mirrors_of_introspect h
  have hproperty : Property.ofDecl registry model.name declared ∈
      (TypeDefinition.ofModel registry model).fields := List.mem_map_of_mem hdeclared
  rcases Relation.reflTransGen_iff_eq_or_transGen.mp hreaches with rfl | hleads
  · obtain ⟨found, hfound, hroot⟩ := hmirrors.root_eq
    obtain rfl : model = found := Option.some.inj (hmodel.symm.trans hfound)
    exact ⟨_, _, .root, (at?_property_iff h hdocument).mpr ⟨_, hroot ▸ hproperty, rfl, rfl⟩⟩
  · have hnested := (hmirrors.nested_iff owner _).mpr ⟨hleads, model, hmodel, rfl⟩
    exact ⟨_, _, .definition,
      (at?_definition_property_iff h hdocument).mpr ⟨_, hnested, _, hproperty, rfl, rfl⟩⟩

/-- What stands at the place of a field is the schema of a field of the type. -/
theorem SchemaTree.exists_field_of_place (h : catalog.introspect registry root = .ok tree)
    (hdocument : tree.assemble context type instance? = .ok document) {owner field : String}
    {place : Pointer} {schema : Json} (hplace : FieldPlace root field owner place)
    (hschema : document.toJson.at? place = some schema) :
    ∃ definition, tree.get? owner = some definition ∧
      ∃ property ∈ definition.fields, property.name = field ∧ schema = property.schema := by
  cases hplace with
  | root =>
    have hmirrors := mirrors_of_introspect h
    exact ⟨tree.root, hmirrors.root_name ▸ hmirrors.get?_root,
      (at?_property_iff h hdocument).mp hschema⟩
  | definition =>
    obtain ⟨definition, hnested, hproperty⟩ := (at?_definition_property_iff h hdocument).mp hschema
    exact ⟨definition, by rw [get?, hnested], hproperty⟩

/-- The schemas of the fields of all reachable types stand in a document. The references in one of
them are the places of the types that the declared kind mentions, and at each of these places the
document has the definition of the type. A reference is read back as its place exactly if the name
of the type is plain. -/
theorem references_of_exportDocument
    (h : (exportDocument registry catalog vocabulary root instance?).2 = .ok document) :
    (∀ owner model, catalog.Reaches root owner → catalog.get? owner = some model →
        ∀ declared ∈ model.fields, ∃ place schema, FieldPlace root declared.name owner place ∧
          document.toJson.at? place = some schema) ∧
      ∀ owner field place schema, FieldPlace root field owner place →
        document.toJson.at? place = some schema →
        ∃ model declared, catalog.get? owner = some model ∧ declared ∈ model.fields ∧
          declared.name = field ∧
          (∀ reference, schema.HasReference reference ↔
            ∃ target, declared.kind.Mentions target ∧ reference = definitionPointer target) ∧
          ∀ target, declared.kind.Mentions target →
            (∃ nested, catalog.get? target = some nested ∧
              document.toJson.at? ["$defs", target] =
                some (TypeDefinition.ofModel registry nested).schema) ∧
            (Pointer.ofFragment? (definitionPointer target) = some ["$defs", target] ↔
              Pointer.IsPlain target) := by
  obtain ⟨tree, context, htree, -, hdocument⟩ := compile_eq_ok_iff.mp h
  have hmirrors := SchemaTree.mirrors_of_introspect htree
  refine ⟨?_, ?_⟩
  · intro owner model hreaches hmodel declared hdeclared
    exact SchemaTree.exists_place_of_field htree hdocument hreaches hmodel hdeclared
  · intro owner field place schema hplace hschema
    obtain ⟨definition, hget, property, hproperty, rfl, rfl⟩ :=
      SchemaTree.exists_field_of_place htree hdocument hplace hschema
    obtain ⟨-, model, hmodel, rfl⟩ := hmirrors.get?_iff.mp hget
    obtain ⟨declared, hdeclared, rfl⟩ := List.mem_map.mp hproperty
    refine ⟨model, declared, hmodel, hdeclared, rfl, ?_, ?_⟩
    · intro reference
      simp only [Property.hasReference_schema_iff, Property.ofDecl, Kind.mentions_normalize_iff]
    · intro target hmentions
      refine ⟨?_, Pointer.ofFragment?_definitionPointer_iff⟩
      have hnormal := Kind.mentions_normalize_iff.mpr hmentions
      obtain ⟨nested, hnested⟩ := hmirrors.exists_nested_of_mentions hget hproperty hnormal
      obtain ⟨-, other, hother, rfl⟩ := (hmirrors.nested_iff target nested).mp hnested
      refine ⟨other, hother, ?_⟩
      rw [SchemaTree.at?_definition htree hdocument, hnested, Option.map_some]
      rfl

/-- A unit that is measured by a rate, whose name has a slash, and consists of parts. -/
def ratedUnits : Catalog :=
  .ofModels [
    { name := "Unit", fields := [
      { name := "rate", kind := .reference "m/s" },
      { name := "parts", kind := .collection (.reference "Part") }] },
    { name := "m/s" },
    { name := "Part" }]

/-- The references below the parts of a unit are those to parts, and their pointer leads to the
definition. -/
theorem references_of_exportDocument_ratedUnits :
    ∃ document schema, (exportDocument ∅ ratedUnits {} "Unit" none).2 = .ok document ∧
      document.toJson.at? ["properties", "parts"] = some schema ∧
      ∃ model declared, ratedUnits.get? "Unit" = some model ∧ declared ∈ model.fields ∧
        declared.name = "parts" ∧
        (∀ reference, schema.HasReference reference ↔
          ∃ target, declared.kind.Mentions target ∧ reference = definitionPointer target) ∧
        ∀ target, declared.kind.Mentions target →
          (∃ nested, ratedUnits.get? target = some nested ∧
            document.toJson.at? ["$defs", target] =
              some (TypeDefinition.ofModel ∅ nested).schema) ∧
          (Pointer.ofFragment? (definitionPointer target) = some ["$defs", target] ↔
            Pointer.IsPlain target) := by
  have hok : (exportDocument ∅ ratedUnits {} "Unit" none).2.isOk = true := by cbv
  obtain ⟨document, h⟩ := Outcome.exists_of_isOk hok
  have hplace : ((exportDocument ∅ ratedUnits {} "Unit" none).2.toOption.bind
      fun document => document.toJson.at? ["properties", "parts"]).isSome = true := by cbv
  rw [h, Except.toOption, Option.bind_some] at hplace
  obtain ⟨schema, hschema⟩ := Option.isSome_iff_exists.mp hplace
  exact ⟨document, schema, h, hschema, (references_of_exportDocument h).2 _ _ _ _ .root hschema⟩

/-- The reference to the type whose name has a slash leads nowhere in the document. -/
theorem reference_leads_nowhere :
    ¬ ∀ (registry : Registry) (catalog : Catalog) (vocabulary : Vocabulary) (root : String)
      (instance? : Option Json) (document : Document),
      (exportDocument registry catalog vocabulary root instance?).2 = .ok document →
      ∀ owner field place schema, FieldPlace root field owner place →
        document.toJson.at? place = some schema →
        ∀ reference, schema.HasReference reference →
          ∃ pointer part, Pointer.ofFragment? reference = some pointer ∧
            document.toJson.at? pointer = some part := by
  intro hclaim
  obtain ⟨pointer, part, hpointer, hpart⟩ := hclaim ∅ ratedUnits {} "Unit" none _ (by cbv)
    "Unit" "rate" _ _ .root (by cbv) "#/$defs/m/s" (.here List.mem_cons_self)
  have hread : Pointer.ofFragment? "#/$defs/m/s" = some ["$defs", "m", "s"] := by decide +kernel
  obtain rfl : ["$defs", "m", "s"] = pointer := Option.some.inj (hread.symm.trans hpointer)
  cases hpart

end LinkedSchema
