import LinkedSchema.Tree

/-!
# Schemas of kinds and types

A kind is rendered as a JSON Schema that refers to other types by their place among the
definitions of the document. The type of all values has the empty schema.
-/

namespace LinkedSchema

/-- The schema of the null value. -/
def nullSchema : Json :=
  .obj [("type", .str "null")]

/-- The place of a type among the definitions of its document. -/
def definitionPointer (name : String) : String :=
  "#/$defs/" ++ name

mutual

/-- The schema of a kind. -/
def Kind.schema : Kind → Json
  | .scalar type => .obj (type.keyword?.map fun keyword => ("type", Json.str keyword)).toList
  | .enumeration literals => .obj [("enum", .arr literals)]
  | .reference name => .obj [("$ref", .str (definitionPointer name))]
  | .collection item => .obj [("type", .str "array"), ("items", Kind.schema item)]
  | .union members => .obj [("anyOf", .arr (Kind.schemaMembers members))]
  | .nullable inner => .obj [("anyOf", .arr [Kind.schema inner, nullSchema])]

/-- The schemas of the members of a union. -/
def Kind.schemaMembers : List Kind → List Json
  | [] => []
  | kind :: kinds => Kind.schema kind :: Kind.schemaMembers kinds

end

namespace Property

/-- What a field adds to the schema of its kind. -/
def annotations (field : Property) : List (String × Json) :=
  (field.description.map fun text => ("description", Json.str text)).toList ++
    (field.unit.map fun text => ("unit", Json.str text)).toList ++
    (field.default.map fun value => ("default", value)).toList

/-- The schema of a field: that of its kind with the annotations of the field written into it. -/
def schema (field : Property) : Json :=
  match field.kind.schema with
  | .obj members => .obj (Table.insertAll members field.annotations)
  | other => other

end Property

namespace TypeDefinition

/-- The schemas of the fields under their names. -/
def properties (definition : TypeDefinition) : Table Json :=
  Table.ofList (definition.fields.map fun field => (field.name, field.schema))

/-- The names of the required fields as JSON. -/
def requiredJson (definition : TypeDefinition) : Json :=
  .arr (definition.required.map .str)

/-- The schema of a type. -/
def schema (definition : TypeDefinition) : Json :=
  .obj [("properties", .obj definition.properties), ("required", definition.requiredJson),
    ("title", .str definition.name), ("type", .str "object")]

end TypeDefinition

end LinkedSchema
