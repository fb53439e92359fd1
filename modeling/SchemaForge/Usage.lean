import SchemaForge.Reference.Graph
import SchemaForge.Reference.Reachability

/-!
# Usage

Whether a named schema is used by requests, by responses or by both, found from the operations of a
document: request bodies and parameters use schemas in requests, responses in responses, and a
schema that is used uses all that it refers to. If no operation refers to any schema, schemas with
write-only but no read-only properties count as used by requests, and the other way round. Circular
schemas always count as used by both.
-/

namespace SchemaForge

inductive Usage where
  | request
  | response
  | both
deriving DecidableEq, Repr

namespace Usage

open Reference

def word : Usage → String
  | .request => "request"
  | .response => "response"
  | .both => "both"

/-! ## Operations -/

/-- The methods whose operations are looked at. -/
def methods : List String := ["get", "post", "put", "patch", "delete", "head", "options"]

/-- The schemas of the media types that a request body or response offers. -/
def contentSchemas : Value → List Value
  | .object container =>
    match Fields.value container "content" with
    | .object content => content.filterMap fun f =>
      match f.2 with
      | .object media => Fields.get? media "schema"
      | _ => none
    | _ => []
  | _ => []

/-- The schemas of parameters. -/
def parameterSchemas (parameters : List Value) : List Value :=
  parameters.filterMap fun p =>
    match p with
    | .object fields => Fields.get? fields "schema"
    | _ => none

/-- The names that some schemas refer to. -/
def namesIn (schemas : List Value) : Except Fault (List String) := do
  let found ← schemas.mapM names
  return found.flatten

/-- The names that operations refer to, for requests and for responses. -/
structure Direct where
  request : List String := []
  response : List String := []

def Direct.append (a b : Direct) : Direct := ⟨a.request ++ b.request, a.response ++ b.response⟩

/-- The names that one operation refers to, given the parameters of its path. -/
def ofOperation (shared : Value) (operation : Fields) : Except Fault Direct := do
  let body ← namesIn (contentSchemas (operation.value "requestBody"))
  let answers ← (operation.value "responses").fieldsIfSet
  let received ← namesIn (answers.flatMap fun f => contentSchemas f.2)
  let shared ← shared.walkIfSet
  let own ← (operation.value "parameters").walkIfSet
  let parameters ← namesIn (parameterSchemas (shared ++ own))
  return ⟨body ++ parameters, received⟩

/-- The names that the operations of one path refer to. -/
def ofPath : Value → Except Fault Direct
  | .object fields => do
    let item : Fields := fields
    let found ← methods.mapM fun method =>
      match item.value method with
      | .object operation => ofOperation (item.value "parameters") operation
      | _ => .ok {}
    return found.foldl Direct.append {}
  | _ => .ok {}

/-- The names that all operations of a document refer to. -/
def ofPaths (paths : Value) : Except Fault Direct := do
  let paths ← paths.fieldsIfSet
  let found ← paths.mapM fun f => ofPath f.2
  return found.foldl Direct.append {}

/-! ## Expansion -/

/-- The named schemas that a named schema refers to. -/
def edges (schemas : Fields) (name : String) : Except Fault (List String) := do
  let found ← names (schemas.value name)
  return found.filter schemas.has

/-- The given names and those that can be reached from them; fails if one of these schemas has a
malformed reference. -/
def expand (schemas : Fields) (start : List String) : Except Fault (List String) := do
  let next (name : String) := (edges schemas name).toOption.getD []
  let found := reachable next schemas.length start
  discard (found.mapM (edges schemas))
  return found

/-! ## Flags -/

mutual

/-- Whether a property with a flag is declared anywhere inside a document. -/
def flagged (flag : String) : Nat → Value → Except Fault Bool
  | fuel, .object fields => flaggedFields flag fuel fields
  | _, _ => .ok false

/-- Whether a schema or one inside it declares a property with a flag. -/
def flaggedFields (flag : String) : Nat → Fields → Except Fault Bool
  | 0, _ => .ok false
  | fuel + 1, schema => do
    let properties ← (schema.value "properties").fieldsIfSet
    let here := properties.any fun f =>
      match f.2 with
      | .object p => (Fields.value p flag).isSet
      | _ => false
    if here then return true
    else anyFlagged flag fuel (children schema)

def anyFlagged (flag : String) : Nat → List Fields → Except Fault Bool
  | 0, _ => .ok false
  | _ + 1, [] => .ok false
  | fuel + 1, c :: cs => do
    if ← flaggedFields flag fuel c then return true
    else anyFlagged flag fuel cs

end

/-- Whether a schema or one inside it declares a property with a flag. -/
def hasFlagged (flag : String) (schema : Value) : Except Fault Bool :=
  flagged flag (2 * schema.weight + 2) schema

/-- The schemas that flags alone assign to requests and to responses. -/
def ofFlags (schemas : Fields) : Except Fault (List Scalar × List Scalar) := do
  let found ← schemas.mapM fun f => do
    let readOnly ← hasFlagged "readOnly" f.2
    let writeOnly ← hasFlagged "writeOnly" f.2
    return (f.1, readOnly, writeOnly)
  return ((found.filter fun f => f.2.2 && !f.2.1).map (·.1),
    (found.filter fun f => f.2.1 && !f.2.2).map (·.1))

/-! ## Analysis -/

/-- The usage that membership in the two sets gives. -/
def ofMembership (sent received : Bool) : Option Usage :=
  match sent, received with
  | true, true => some .both
  | true, false => some .request
  | false, true => some .response
  | false, false => none

/-- The schemas of a document, none if there are none. -/
def schemasOf (spec : Fields) : Except Fault Fields := do
  let components ← (spec.value "components").fieldsIfSet
  (components.value "schemas").fieldsIfSet

/-- The usage of each schema of a document; the circular ones are used by both. -/
def analyze (spec : Fields) (circular : List String) : Except Fault (List (Scalar × Usage)) := do
  let schemas ← schemasOf spec
  let direct ← ofPaths (spec.value "paths")
  let (sent, received) ←
    if direct.request.isEmpty && direct.response.isEmpty then ofFlags schemas
    else do
      let sent ← expand schemas direct.request
      let received ← expand schemas direct.response
      pure (sent.map Scalar.text, received.map Scalar.text)
  return schemas.filterMap fun f =>
    let usage :=
      if circular.any (fun n => f.1 == .text n) then some .both
      else ofMembership (sent.contains f.1) (received.contains f.1)
    usage.map fun u => (f.1, u)

end Usage

end SchemaForge
