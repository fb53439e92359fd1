import SchemaForge.Config.Choice

/-!
# Visible properties

Requests do not show read-only properties, and responses no write-only ones. Filtering drops the
properties that are not visible, in a schema and in the schemas inside it, together with their
entries among the required ones. References are left alone: what they point to is filtered when it
is compiled.
-/

namespace SchemaForge.Visibility

/-- Whether a property with the given definition is visible. -/
def shows (v : Visibility) (definition : Value) : Bool :=
  match definition with
  | .object fields =>
    match v with
    | .all => true
    | .request => !(Fields.value fields "readOnly").isSet
    | .response => !(Fields.value fields "writeOnly").isSet
  | _ => true

/-- A required entry stays unless its property was declared and is not visible. -/
def staysRequired (properties kept : Fields) (entry : Value) : Except Fault Bool := do
  let name ← entry.asName
  return kept.hasName name || !properties.hasName name

/-- The required entries that stay, of any value that can be walked over. -/
def requiredLeft (properties kept : Fields) (required : Value) : Except Fault (List Value) := do
  let entries ← required.walkIfSet
  entries.filterM (staysRequired properties kept)

/-- The fields of a schema with its required entries adjusted to the properties that were kept. -/
def adjustRequired (before after : Fields) : Except Fault Fields :=
  match before.value "properties", after.value "properties" with
  | .object properties, .object kept => do
    let left ← requiredLeft properties kept (before.value "required")
    if left.isEmpty then return after.erase "required"
    else return after.put (.text "required") (.list left)
  | _, _ => .ok after

mutual

/-- A schema without the properties that are not visible. -/
def filterSchema (v : Visibility) : Value → Except Fault Value
  | .object fields =>
    if Fields.has fields "$ref" then .ok (.object fields)
    else do
      let filtered ← filterFields v fields
      return .object (← adjustRequired fields filtered)
  | other => .ok other

/-- The fields of a schema, with the schemas that they hold filtered. -/
def filterFields (v : Visibility) : List (Scalar × Value) → Except Fault (List (Scalar × Value))
  | [] => .ok []
  | (name, value) :: rest => do
    let value ←
      match name with
      | .text "properties" => filterProperties v value
      | .text "items" => filterSchema v value
      | .text "allOf" => filterBranches v value
      | .text "oneOf" => filterBranches v value
      | .text "anyOf" => filterBranches v value
      | _ => .ok value
    let rest ← filterFields v rest
    return (name, value) :: rest

/-- Declared properties without those that are not visible. -/
def filterProperties (v : Visibility) : Value → Except Fault Value
  | .object properties => do return .object (← filterVisible v properties)
  | other => .ok other

def filterVisible (v : Visibility) : List (Scalar × Value) → Except Fault (List (Scalar × Value))
  | [] => .ok []
  | (name, definition) :: rest =>
    if v.shows definition then do
      let definition ← filterSchema v definition
      let rest ← filterVisible v rest
      return (name, definition) :: rest
    else filterVisible v rest

def filterBranches (v : Visibility) : Value → Except Fault Value
  | .list branches => do return .list (← filterAll v branches)
  | other => .ok other

def filterAll (v : Visibility) : List Value → Except Fault (List Value)
  | [] => .ok []
  | branch :: branches => do
    let branch ← filterSchema v branch
    let branches ← filterAll v branches
    return branch :: branches

end

/-- Filters a schema; if everything is visible there is nothing to do. -/
def filter (v : Visibility) (schema : Value) : Except Fault Value :=
  match v with
  | .all => .ok schema
  | _ => filterSchema v schema

end SchemaForge.Visibility
