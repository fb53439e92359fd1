import SchemaForge.Compile.AllOf
import SchemaForge.Compile.Arrays
import SchemaForge.Compile.Primitives
import SchemaForge.Compile.Unevaluated
import SchemaForge.Compile.Union
import SchemaForge.Reference.Alias

/-!
# Compiling schemas

`compileSchema` compiles a schema of any form. It counts how deep it is: each schema object compiled
inside another takes one of the levels that are left, and the recursion goes down by them. A schema
compiled without a name is taken from the cache if an equal one was compiled before; references and
compositions report to the session of their schema and are never cached.

`compileNamed` compiles a schema under a name, in a session of its own. What is malformed in it is
reported as a failure of the schema.

What becomes of a reference is decided in one place, `compileReference`; all that goes through a
schema to find its references takes it as an argument.
-/

namespace SchemaForge.Compile

open Schema

/-! ## Parts that refer to other schemas -/

/-- Compiles a reference, given its text and the name it points to; the flag says that it is the
whole definition of a schema. -/
abbrev Refer := String → String → Bool → Compile Expression

/-- Whether a reference has to be deferred: its target is, or leads back to, the schema itself. -/
def mustDefer (env : Environment) (current name resolved : String) : Bool :=
  name == current || resolved == current || env.graph.inSameCycle current name

/-- Where the schema of a session stands. -/
def placeOf (s : Session) : String :=
  match s.name with
  | some name => if name == "" then "#" else "#/components/schemas/" ++ name
  | none => "#"

/-- A reference to a named schema. Aliases are replaced by what they name. -/
def compileReference (env : Environment) (ref name : String) (top : Bool) : Compile Expression := do
  let s ← session
  if !env.schemas.has name then
    fail (.unresolved ref (placeOf s) ((s.name.map Scalar.text).getD .null))
  else
    let resolved ← Reference.resolveAlias env.schemas name
    match s.name with
    | none => return plainRef (← env.constName resolved)
    | some current =>
      if current != "" && !top then addDependency name
      let const ← env.constName resolved
      if mustDefer env current name resolved then
        if env.context.separateTypes.isSet then
          return deferredRef const ("z.ZodType<" ++ (← env.typeName resolved) ++ ">")
        else return deferredRef const "z.ZodTypeAny"
      else return plainRef const

/-- A schema of several types: a union of the schema with each of them. -/
def compileSeveralTypes (inner : Inner) (schema : Fields) (types : List Value) :
    Compile Expression := do
  let members ← types.mapM fun type =>
    inner (.object ((schema.erase "nullable").put (.text "type") type)) true
  return zod "union" [.array (members.map Expression.toNode)]

/-- A schema that excludes another one. -/
def compileNegation (inner : Inner) (schema : Fields) (excluded : Value) : Compile Expression := do
  let excluded ← inner excluded true
  let base ←
    if schema.has "type" || schema.has "properties" || schema.has "items" then
      inner (.object ((schema.erase "not").erase "nullable")) true
    else pure (zod "unknown" [])
  return base.andThen "refine"
    [.code [.text "(val) => !", .node excluded.toNode, .text ".safeParse(val).success"],
     messageOptions "Value must not match the excluded schema"]

/-- An object schema, or a map if only the values of other properties are known. -/
def compileObjectForm (env : Environment) (inner : Inner) (schema : Fields) (constrained : Bool) :
    Compile Expression := do
  let e ←
    if constrained then do
      let e ← compileObject env inner schema
      checkUnevaluated env inner schema e
    else
      match schema.value "additionalProperties" with
      | .object values => do
        let values ← inner (.object values) false
        pure (zod "record" [(zod "string" []).toNode, values.toNode])
      | .bool false => pure (compileEmptyObject .strict)
      | _ => pure (compileEmptyObject env.context.emptyObject)
  return e.describe (schema.value "description") env.describes

/-! ## Forms -/

/-- Whether the default for null applies: to values only, and not to definitions, enums, constants
or branches. -/
def defaultApplies (schema : Fields) (top branch : Bool) : Bool :=
  !top && !schema.has "enum" && !schema.has "const" && !branch

/-- A schema of a given form that is not a composition. -/
def compileForm (env : Environment) (refer : Refer) (inner : Inner) (schema : Fields) (top : Bool) :
    Form → Compile Expression
  | .severalTypes types => compileSeveralTypes inner schema types
  | .reference ref name => refer ref name top
  | .constant value => return zod "literal" [.literal value]
  | .enum values => return compileEnum values
  | .negation excluded => compileNegation inner schema excluded
  | .string => compileString env schema
  | .number isInteger => return compileNumber env schema isInteger
  | .boolean => return (zod "boolean" []).describe (schema.value "description") env.describes
  | .array => compileArray env inner schema
  | .object constrained => compileObjectForm env inner schema constrained
  | _ => return (zod "unknown" []).describe (schema.value "description") env.describes

/-- A schema of a given form. Compositions follow only their own word on null. -/
def compileClassified (env : Environment) (refer : Refer) (inner : Inner) (schema : Fields)
    (top branch : Bool) : Form → Compile Expression
  | .allOf branches => do
    let e ← compileAllOf env inner branches (isNullable schema false)
    checkUnevaluated env inner schema e
  | .union kind branches discriminator mapping => do
    let admitting := schema.has "unevaluatedProperties"
    let e ← compileUnion env inner kind branches discriminator mapping (isNullable schema false)
      admitting
    checkUnevaluated env inner schema e
  | form => do
    let default := defaultApplies schema top branch && env.context.defaultNullable.isSet
    let e ← compileForm env refer inner schema top form
    return e.nullableIf (isNullable schema default)

/-- The fields of a schema object, as far as they are visible. -/
def visibleFields (env : Environment) (schema : Fields) : Except Fault Fields := do
  let filtered ←
    if schema.has "properties" then env.context.visibility.filter (.object schema)
    else pure (.object schema)
  filtered.fields

/-- A schema object. -/
def compileFields (env : Environment) (refer : Refer) (inner : Inner) (schema : Fields)
    (top branch : Bool) : Compile Expression := do
  let schema ← visibleFields env schema
  let form ← classify schema
  compileClassified env refer inner schema top branch form

/-! ## The cache -/

/-- The keywords of schemas that are never cached. -/
def uncachedKeywords : List String := ["$ref", "allOf", "oneOf", "anyOf"]

/-- The key of a schema: its canonical text with the options that its compilation depends on. -/
def cacheKey (env : Environment) (schema : Fields) (top branch : Bool) : Except Fault String :=
  Json.write Json.canonical (.object [
    (.text "schema", .object schema),
    (.text "type", .text (Choice.word env.context.visibility)),
    (.text "mode", .text (Choice.word env.context.mode)),
    (.text "top", .bool top),
    (.text "suppress", .bool branch),
    (.text "describe", env.context.useDescribe),
    (.text "descriptions", env.context.includeDescriptions)])

/-- Whether a key names one of the keywords of schemas that are not cached. -/
def namesUncached (key : String) : Bool :=
  uncachedKeywords.any fun k => Text.contains (Json.quote true k).toList key.toList

/-- A schema object, from the cache if it may be there. -/
def compileCached (env : Environment) (refer : Refer) (inner : Inner) (schema : Fields)
    (top branch : Bool) : Compile Expression := do
  let key ← cacheKey env schema top branch
  let s ← session
  if s.name.isSome || namesUncached key then compileFields env refer inner schema top branch
  else cached key (compileFields env refer inner schema top branch)

/-! ## Schemas -/

/-- Compiles a schema with a number of levels left. A truth value is a schema too. -/
def compileWithin (env : Environment) (refer : Refer) (top branch : Bool) :
    Nat → Value → Compile Expression
  | _, .bool b => return zod (if b then "unknown" else "never") []
  | 0, .object _ => do fail (.tooDeep env.context.maxDepth (← session).name)
  | levels + 1, .object schema =>
    nested (compileCached env refer (fun v branch => compileWithin env refer false branch levels v)
      schema top branch)
  | _, v => do fail (.notASchema v.kindName (← session).name)

/-- How many levels a schema may use: those left of the limit, and never more than it has nodes if
there is no limit. -/
def levelsFor (env : Environment) (depth : Nat) (schema : Value) : Nat :=
  match env.context.depthLimit with
  | .atMost n => n - depth
  | .unbounded => schema.weight

/-- Compiles a schema, and its references as told. -/
def compileSchemaWith (env : Environment) (refer : Refer) (schema : Value) (top branch : Bool) :
    Compile Expression := do
  let s ← session
  compileWithin env refer top branch (levelsFor env s.depth schema) schema

/-- Compiles a schema. -/
def compileSchema (env : Environment) (schema : Value) (top branch : Bool) : Compile Expression :=
  compileSchemaWith env (compileReference env) schema top branch

/-! ## Named schemas -/

/-- What a failure inside a named schema is reported as. A missing element says nothing of the
schema and is left as it is. -/
def failureOf (name : String) : Failure → Failure
  | .fault .wrongKind => .malformed name
  | .fault .noMember => .malformed name
  | .fault .noEntry => .malformed name
  | .fault (.badValue _) => .malformed name
  | failure => failure

/-- Compiles the definition of a named schema, and its references as told. -/
def compileNamedWith (env : Environment) (refer : Refer) (name : String) (schema : Value) :
    Compile (Expression × Session) :=
  inSession { name := some name } (compileSchemaWith env refer schema true false) (failureOf name)

/-- Compiles the definition of a named schema, and gives the session it was compiled in. -/
def compileNamed (env : Environment) (name : String) (schema : Value) :
    Compile (Expression × Session) :=
  compileNamedWith env (compileReference env) name schema

end SchemaForge.Compile
