import SchemaForge.Failure
import SchemaForge.Reference.Names

/-!
# Specifications

What a document has to offer before anything is generated from it: named schemas, each an object or
a truth value, and no reference that points nowhere.
-/

namespace SchemaForge.Specification

open Reference

/-! ## Named schemas -/

/-- Every named schema is an object or a truth value. -/
def checkKinds (schemas : Fields) : Except Failure Unit :=
  match schemas.find? fun f => !(f.2.isObject || f.2.isBool) with
  | some (name, v) => .error (.schemaNotObject name v.kindName)
  | none => .ok ()

/-- The named schemas of a document. -/
def schemas (document : Value) : Except Failure Fields :=
  match document with
  | .object fields => do
    let components ← Failure.lift (Fields.value fields "components").fieldsIfSet
    match components.value "schemas" with
    | .object [] => throw .noSchemas
    | .object schemas =>
      checkKinds schemas
      return schemas
    | _ => throw .noSchemas
  | _ => .error .documentNotMapping

/-! ## References -/

/-- The reference of a schema has to name a schema. -/
def checkOwn (schemas : Fields) (owner : Scalar) (place : Located) : Except Failure Unit :=
  match place.schema.value "$ref" with
  | .text ref =>
    if schemas.has (Naming.targetName ref) then .ok ()
    else .error (.unresolved ref place.path owner)
  | _ => .ok ()

/-- Every target of a discriminator mapping has to name a schema. -/
def checkMapping (schemas : Fields) (owner : Scalar) (path : String) : Fields → Except Failure Unit
  | [] => .ok ()
  | (value, .text target) :: rest =>
    if schemas.has (Naming.targetName target) then checkMapping schemas owner path rest
    else
      .error (.unresolved target (path ++ "/discriminator/mapping/" ++ value.display) owner)
  | _ :: _ => .error (.fault .noMember)

/-- Checks the schemas of a stack, and those inside them before the rest of the stack. -/
def checkStack (schemas : Fields) (owner : Scalar) : Nat → List Located → Except Failure Unit
  | 0, _ => .ok ()
  | _ + 1, [] => .ok ()
  | fuel + 1, place :: stack => do
    checkOwn schemas owner place
    checkMapping schemas owner place.path (mappingOf place.schema)
    checkStack schemas owner fuel (subschemas place.schema place.path ++ stack)

/-- Checks the references of one named schema. -/
def checkSchema (schemas : Fields) (owner : Scalar) : Value → Except Failure Unit
  | .object schema =>
    checkStack schemas owner (Value.weight (.object schema))
      [⟨"#/components/schemas/" ++ owner.display, schema⟩]
  | _ => .ok ()

/-- Every reference in the named schemas points to one of them; the first that does not is the
failure. -/
def checkReferences (schemas : Fields) : Except Failure Unit :=
  schemas.forM fun f => checkSchema schemas f.1 f.2

end SchemaForge.Specification
