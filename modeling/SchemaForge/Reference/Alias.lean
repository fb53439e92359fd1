import SchemaForge.Naming.Identifier

/-!
# Aliases

A schema that is nothing but an `allOf` of a single reference is an alias of the schema it refers
to. Chains of aliases are followed to their end; a chain that comes back to a name it has met, or
that leads to no schema, ends where it stands. A chain never meets a name twice, so the number of
schemas bounds its length.
-/

namespace SchemaForge.Reference

/-- The reference of a schema that is only an alias. -/
def aliasTarget? : Value → Option Value
  | .object fields =>
    let schema : Fields := fields
    if schema.has "properties" || schema.has "oneOf" || schema.has "anyOf" then none
    else
      match schema.value "allOf" with
      | .list [.object branch] => Fields.get? branch "$ref"
      | _ => none
  | _ => none

/-- Whether a schema is only an alias. -/
def isAlias (schema : Value) : Bool := (aliasTarget? schema).isSome

/-- Follows a chain of aliases that has met the names `seen`. -/
def followAlias (schemas : Fields) : Nat → List String → String → Except Fault String
  | 0, _, name => .ok name
  | fuel + 1, seen, name =>
    match aliasTarget? (schemas.value name) with
    | none => .ok name
    | some ref => do
      let target ← Naming.targetOf ref
      if seen.contains target || !schemas.has target then return name
      else followAlias schemas fuel (target :: seen) target

/-- The schema that a chain of aliases finally names. -/
def resolveAlias (schemas : Fields) (name : String) : Except Fault String :=
  followAlias schemas (schemas.length + 1) [name] name

/-- Whether a name is an alias, directly or not, of another one. -/
def leadsBack (schemas : Fields) (target name : String) : Except Fault Bool := do
  if name == target then return false
  else return (← resolveAlias schemas name) == target

end SchemaForge.Reference
