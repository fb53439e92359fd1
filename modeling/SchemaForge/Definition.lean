import SchemaForge.Comment
import SchemaForge.Expression.Printer

/-!
# Definitions

A compiled named schema as the module defines it: a constant, a type inferred from it, the comment
before it and, for a declared enum, its declaration. What was gathered while it was compiled goes
with it.
-/

namespace SchemaForge

open Text

structure Definition where
  /-- The name of the schema. -/
  name : String
  const : String
  type : String
  expression : Expression
  comment : String := ""
  dependencies : List String := []
  conflicts : List String := []
  warnings : List String := []
  /-- The declaration of the enum, if there is one. -/
  enumCode : Option String := none

namespace Definition

/-- The declaration of the constant. -/
def declaration (d : Definition) : Except Fault String := do
  return "export const " ++ d.const ++ " = " ++ (← d.expression.print) ++ ";"

/-- The declaration of the type. -/
def typeDeclaration (d : Definition) : String :=
  "export type " ++ d.type ++ " = z.infer<typeof " ++ d.const ++ ">;"

/-- All nodes of the expression. -/
def nodes (d : Definition) : List Node := d.expression.toNode.walk

/-- Whether some reference is deferred. -/
def hasDeferred (d : Definition) : Bool :=
  d.nodes.any fun n =>
    match n with
    | .deferred _ _ => true
    | _ => false

/-- Whether a union with a discriminator is somewhere in the expression. -/
def hasDiscriminated (d : Definition) : Bool :=
  d.nodes.any fun n =>
    match n with
    | .chain (.call callee _) _ => callee == "z.discriminatedUnion"
    | _ => false

/-- The modifiers that limit values. -/
def constraintNames : List String :=
  ["min", "max", "gt", "gte", "lt", "lte", "length", "regex", "multipleOf"]

/-- Whether some expression is limited by a constraint. -/
def hasConstraints (d : Definition) : Bool :=
  d.nodes.any fun n =>
    match n with
    | .chain _ modifiers => modifiers.any fun m => constraintNames.contains m.name
    | _ => false

/-! ## Types that deferred references name -/

/-- What a deferred reference to a type of its own is annotated with, up to the name. -/
def typedAnnotation : List Char := "z.ZodType<".toList

/-- The type that the type of a deferred reference names. -/
def namedType? (type : String) : Option String :=
  let cs := type.toList
  if startsWith typedAnnotation cs then
    some (String.ofList (cs.drop typedAnnotation.length).dropLast)
  else none

/-- The types that the deferred references of a definition name. -/
def namedTypes (d : Definition) : List String :=
  d.nodes.filterMap fun n =>
    match n with
    | .deferred _ type => namedType? type
    | _ => none

/-- The definition as a block of lines; the type is left out if types come from elsewhere. -/
def block (d : Definition) (withType : Bool) : Except Fault String := do
  let declaration ← d.declaration
  return join "\n" <|
    (match d.enumCode with
      | some code => [code, ""]
      | none => []) ++
    (if d.comment == "" then [] else [d.comment]) ++
    [declaration] ++
    (if withType then [d.typeDeclaration] else [])

end Definition

/-! ## Statistics -/

/-- What is counted over definitions. -/
structure Statistics where
  total : Nat
  deferred : Nat
  discriminated : Nat
  constrained : Nat
  conflicts : Nat
deriving DecidableEq, Repr

/-- The counts over some definitions. -/
def Statistics.ofDefinitions (ds : List Definition) : Statistics where
  total := ds.length
  deferred := ds.countP Definition.hasDeferred
  discriminated := ds.countP Definition.hasDiscriminated
  constrained := ds.countP Definition.hasConstraints
  conflicts := (ds.flatMap Definition.conflicts).length

end SchemaForge
