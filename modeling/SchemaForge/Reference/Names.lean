import SchemaForge.Naming.Identifier
import SchemaForge.Reference.Subschemas

/-!
# References in a schema

The names of the schemas that a schema refers to, anywhere inside it, in the order in which they are
first met. The targets of a discriminator mapping count as references, since they become branches
of the union.

The walk keeps a stack of the schemas still to be visited. It visits each schema object once, so the
number of nodes of the document bounds its steps.
-/

namespace SchemaForge.Reference

/-- The targets of a schema's own discriminator mapping, with the values that select them. -/
def mappingOf (schema : Fields) : Fields :=
  match schema.value "discriminator" with
  | .object discriminator =>
    match Fields.value discriminator "mapping" with
    | .object mapping => mapping
    | _ => []
  | _ => []

/-- The names that a schema itself refers to. -/
def ownNames (schema : Fields) : Except Fault (List String) := do
  let direct :=
    match schema.value "$ref" with
    | .text ref => [Naming.targetName ref]
    | _ => []
  let mapped ← (mappingOf schema).mapM fun f => Naming.targetOf f.2
  return direct ++ mapped

/-- Adds those names that are not yet there. -/
def addNew (found : List String) : List String → List String
  | [] => found
  | n :: ns => addNew (if found.contains n then found else found ++ [n]) ns

/-- Visits the schemas of a stack, and those inside them before the rest of the stack. -/
def collect : Nat → List Fields → List String → Except Fault (List String)
  | 0, _, found => .ok found
  | _ + 1, [], found => .ok found
  | fuel + 1, schema :: stack, found => do
    let own ← ownNames schema
    collect fuel (children schema ++ stack) (addNew found own)

/-- The names that a schema refers to, in the order of their first occurrence. -/
def names : Value → Except Fault (List String)
  | .object schema => collect (Value.weight (.object schema)) [schema] []
  | _ => .ok []

end SchemaForge.Reference
