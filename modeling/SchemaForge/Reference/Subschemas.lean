import SchemaForge.Document.Display

/-!
# Subschemas

The schemas that stand directly inside a schema, each with its place. A keyword holds one schema, a
list of them, or schemas by name; `items` may hold one or a list.
-/

namespace SchemaForge.Reference

/-- Keywords that hold schemas by name. -/
def namedKeywords : List String :=
  ["properties", "patternProperties", "dependentSchemas", "dependencies"]

/-- Keywords that hold one schema. -/
def singleKeywords : List String :=
  ["items", "additionalProperties", "not", "if", "then", "else", "contains", "propertyNames",
   "unevaluatedProperties", "unevaluatedItems"]

/-- Keywords that hold a list of schemas. -/
def listKeywords : List String := ["allOf", "oneOf", "anyOf", "prefixItems"]

/-- A schema object and the place where it stands. -/
structure Located where
  path : String
  schema : Fields

/-- The schema objects among named values. -/
def namedSchemas (path : String) : Value → List Located
  | .object fields => fields.filterMap fun (name, v) =>
    match v with
    | .object schema => some ⟨path ++ "/" ++ name.display, schema⟩
    | _ => none
  | _ => []

/-- The schema objects of a list, by their positions from `index` on. -/
def listedSchemas (path : String) (index : Nat) : List Value → List Located
  | [] => []
  | .object schema :: vs =>
    ⟨path ++ "/" ++ intText index, schema⟩ :: listedSchemas path (index + 1) vs
  | _ :: vs => listedSchemas path (index + 1) vs

/-- The schema objects of a value that is a list. -/
def schemaList (path : String) : Value → List Located
  | .list items => listedSchemas path 0 items
  | _ => []

/-- The schema object that a value is, or those of a list if the keyword allows one. -/
def singleSchema (path : String) (listAllowed : Bool) : Value → List Located
  | .object schema => [⟨path, schema⟩]
  | .list items => if listAllowed then listedSchemas path 0 items else []
  | _ => []

/-- The direct subschemas of a schema, in the order of the keywords. -/
def subschemas (schema : Fields) (path : String) : List Located :=
  let place (keyword : String) := path ++ "/" ++ keyword
  namedKeywords.flatMap (fun k => namedSchemas (place k) (schema.value k)) ++
    singleKeywords.flatMap (fun k => singleSchema (place k) (k == "items") (schema.value k)) ++
    listKeywords.flatMap (fun k => schemaList (place k) (schema.value k))

/-- The direct subschemas of a schema, wherever it stands. -/
def children (schema : Fields) : List Fields := (subschemas schema "#").map (·.schema)

end SchemaForge.Reference
