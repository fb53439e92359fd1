import SchemaForge.Compile.Environment

/-!
# What branches contribute

A branch of a composition contributes the properties and required names of the schema it describes:
its own, those of the schema it refers to, and those of its own `allOf` members. A reference that
was already followed on the way contributes nothing more, so cycles of references come to an end;
`walkBound` bounds the number of steps, since between two references the walk goes down in a schema
and it follows each reference only once.
-/

namespace SchemaForge.Compile

/-- A bound on the length of a way through schemas along references and `allOf` members. -/
def walkBound (schemas : Fields) (branch : Value) : Nat :=
  let size := Fields.weight schemas + branch.weight + 1
  size * size

/-- Adds the fields whose names are new. -/
def mergeNew (fields more : Fields) : Fields :=
  more.foldl (fun fields f => fields.putNew f.1 f.2) fields

/-- Adds the names that are new. -/
def unionNames (names more : List Scalar) : List Scalar :=
  more.foldl (fun names n => if names.any (·.same n) then names else names ++ [n]) names

/-- The target of a branch that is a reference, with the reference; none for any other branch. -/
def branchRef? (branch : Value) : Except Fault (Option String) := do
  if ← branch.holds "$ref" then
    match ← branch.entry "$ref" with
    | .text ref => return some ref
    | _ => throw .noMember
  else return none

/-- The properties that a branch contributes; of several definitions the first counts. -/
def branchProperties (schemas : Fields) : Nat → List String → Value → Except Fault Fields
  | 0, _, _ => .ok []
  | fuel + 1, seen, branch => do
    match ← branchRef? branch with
    | some ref =>
      match schemas.value (Naming.targetName ref) with
      | .null => return []
      | target =>
        if seen.contains ref then return []
        else branchProperties schemas fuel (ref :: seen) target
    | none =>
      let fields ← branch.fields
      let members ← (fields.value "allOf").walkIfSet
      let inherited ← members.foldlM (fun found member => do
        return mergeNew found (← branchProperties schemas fuel seen member)) []
      let own ← (fields.value "properties").fieldsIfSet
      return mergeNew inherited own

/-- The names that a branch requires. -/
def branchRequired (schemas : Fields) : Nat → List String → Value → Except Fault (List Scalar)
  | 0, _, _ => .ok []
  | fuel + 1, seen, branch => do
    match ← branchRef? branch with
    | some ref =>
      match schemas.value (Naming.targetName ref) with
      | .null => return []
      | target =>
        if seen.contains ref then return []
        else branchRequired schemas fuel (ref :: seen) target
    | none =>
      let fields ← branch.fields
      let entries ← (fields.value "required").walkIfSet
      let own ← entries.mapM Value.asName
      let members ← (fields.value "allOf").walkIfSet
      members.foldlM (fun found member => do
        return unionNames found (← branchRequired schemas fuel seen member)) own

/-- All properties that a branch contributes. -/
def propertiesOf (schemas : Fields) (branch : Value) : Except Fault Fields :=
  branchProperties schemas (walkBound schemas branch) [] branch

/-- All names that a branch requires. -/
def requiredOf (schemas : Fields) (branch : Value) : Except Fault (List Scalar) :=
  branchRequired schemas (walkBound schemas branch) [] branch

/-- The keywords that make a schema describe an object. -/
def describesObject (schema : Fields) : Bool :=
  schema.value "type" == .text "object" || schema.has "properties" || schema.has "allOf"

/-- Whether a branch describes an object; a reference to nothing counts as one. -/
def isObjectLike (schemas : Fields) (branch : Value) : Except Fault Bool := do
  match ← branchRef? branch with
  | some ref =>
    match schemas.value (Naming.targetName ref) with
    | .null => return true
    | target => return describesObject (← target.fields)
  | none => return describesObject (← branch.fields)

end SchemaForge.Compile
