import SchemaForge.Naming.Identifier

/-!
# Forms of schemas

Every schema object has exactly one form, found by the first of these that applies: several types, a
reference, a constant, an enum, `allOf`, `oneOf`, `anyOf`, `not`, and last its single type.
-/

namespace SchemaForge.Schema

/-- The two kinds of unions. -/
inductive UnionKind where
  | oneOf
  | anyOf
deriving DecidableEq, Repr

def UnionKind.keyword : UnionKind → String
  | .oneOf => "oneOf"
  | .anyOf => "anyOf"

/-- The form of a schema, with the parts of the schema that belong to it. -/
inductive Form where
  /-- More than one type besides null. -/
  | severalTypes (types : List Value)
  | reference (ref name : String)
  | constant (value : Value)
  | enum (values : List Value)
  | allOf (branches : List Value)
  | union (kind : UnionKind) (branches : List Value) (discriminator mapping : Value)
  | negation (excluded : Value)
  | string
  | number (isInteger : Bool)
  | boolean
  | array
  /-- An object; it is constrained if something is said about its properties. -/
  | object (constrained : Bool)
  /-- No type that is known. -/
  | unknown

/-! ## Types and nullability -/

/-- The declared types other than null. -/
def nonNullTypes (schema : Fields) : List Value :=
  match schema.value "type" with
  | .list types => types.filter fun t => !t.same (.text "null")
  | .text t => [.text t]
  | _ => []

/-- The first declared type other than null. -/
def primaryType (schema : Fields) : Value := (nonNullTypes schema).headD .null

/-- What a schema says of its own about null: a flag, or null among its types. -/
def explicitNullable (schema : Fields) : Option Bool :=
  match schema.value "nullable" with
  | .bool b => some b
  | _ =>
    match schema.value "type" with
    | .list types => if types.any (·.same (.text "null")) then some true else none
    | _ => none

/-- Whether null is let pass, given what holds if the schema does not say. -/
def isNullable (schema : Fields) (default : Bool) : Bool := (explicitNullable schema).getD default

/-! ## Classification -/

/-- The keywords that say something about an object's properties. -/
def objectKeywords : List String :=
  ["properties", "required", "minProperties", "maxProperties", "patternProperties",
   "propertyNames"]

/-- The form that the type of a schema gives it. -/
def formOfType (schema : Fields) : Form :=
  let type : Value :=
    match primaryType schema with
    | .null => if schema.has "properties" then .text "object" else .null
    | t => t
  match type with
  | .text "string" => .string
  | .text "number" => .number false
  | .text "integer" => .number true
  | .text "boolean" => .boolean
  | .text "array" => .array
  | .text "object" => .object (objectKeywords.any schema.has)
  | _ => .unknown

/-- The form of a union; its discriminator has to be an object if it is set. -/
def formOfUnion (schema : Fields) (kind : UnionKind) (branches : Value) : Except Fault Form := do
  let branches ← branches.walk
  let discriminator ← (schema.value "discriminator").fieldsIfSet
  return .union kind branches (discriminator.value "propertyName") (discriminator.value "mapping")

/-- The form of a schema. -/
def classify (schema : Fields) : Except Fault Form :=
  if 1 < (nonNullTypes schema).length then .ok (.severalTypes (nonNullTypes schema))
  else if let some ref := schema.get? "$ref" then
    match ref with
    | .text r => .ok (.reference r (Naming.targetName r))
    | _ => .error .noMember
  else if let some value := schema.get? "const" then .ok (.constant value)
  else if let some values := schema.get? "enum" then values.walk.map .enum
  else if let some branches := schema.get? "allOf" then branches.walk.map .allOf
  else if let some branches := schema.get? "oneOf" then formOfUnion schema .oneOf branches
  else if let some branches := schema.get? "anyOf" then formOfUnion schema .anyOf branches
  else if let some excluded := schema.get? "not" then .ok (.negation excluded)
  else .ok (formOfType schema)

end SchemaForge.Schema
