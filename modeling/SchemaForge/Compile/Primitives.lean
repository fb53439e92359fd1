import SchemaForge.Compile.Environment
import SchemaForge.Compile.Formats

/-!
# Strings, numbers and enums

The validators of schemas without other schemas inside. Constraints follow the base in a fixed
order, and a description comes last.
-/

namespace SchemaForge.Compile

open Formats

/-! ## Strings -/

/-- The base validator for the format of a string. -/
def formatBase (env : Environment) (schema : Fields) : Except Fault Expression :=
  let format := schema.value "format"
  if format.isSet then
    if format == .text "date-time" then .ok env.context.dateTime
    else do
      match ← formats.ruleOf format with
      | some rule => return rule.validator
      | none => return zod "string" []
  else .ok (zod "string" [])

/-- A string validator with the constraints on length and pattern. -/
def stringConstraints (schema : Fields) (e : Expression) : Compile Expression := do
  let least := schema.value "minLength"
  let most := schema.value "maxLength"
  let pattern := schema.value "pattern"
  let e := if least.isNull then e else e.andThen "min" [.literal least]
  let e := if most.isNull then e else e.andThen "max" [.literal most]
  if pattern.isSet then return e.andThen "regex" [.regex (← escapedPattern pattern)]
  else return e

/-- The base validator for the content encoding of a string. -/
def encodingBase (encoding : Value) : Except Fault Expression := do
  match ← contentEncodings.ruleOf encoding with
  | some rule => return rule.validator
  | none =>
    return (zod "string" []).andThen "describe"
      [.literal (.text ("Content encoding: " ++ encoding.display))]

/--
A string schema. A content encoding without a format takes the place of the base; a content media
type adds a refinement.
-/
def compileString (env : Environment) (schema : Fields) : Compile Expression := do
  let base ← formatBase env schema
  let e ← stringConstraints schema base
  let encoding := schema.value "contentEncoding"
  let media := schema.value "contentMediaType"
  let e ←
    if encoding.isSet && !(schema.value "format").isSet then
      stringConstraints schema (← encodingBase encoding)
    else if media.isSet then
      match ← mediaTypes.ruleOf media with
      | some rule => pure (rule.refine e)
      | none => pure e
    else pure e
  return e.describe (schema.value "description") env.describes

/-! ## Numbers -/

/-- A bound as a modifier, if it is a number. -/
def bound (name : String) (v : Value) (e : Expression) : Expression :=
  if v.isNumber then e.andThen name [.literal v] else e

/-- A number schema. A bound is exclusive if a flag beside it says so or if it is itself given as an
exclusive one. -/
def compileNumber (env : Environment) (schema : Fields) (isInteger : Bool) : Expression :=
  let low := schema.value "exclusiveMinimum"
  let high := schema.value "exclusiveMaximum"
  let e := zod "number" []
  let e := if isInteger then e.andThen "int" [] else e
  let e := bound (if low == .bool true then "gt" else "gte") (schema.value "minimum") e
  let e := bound "gt" low e
  let e := bound (if high == .bool true then "lt" else "lte") (schema.value "maximum") e
  let e := bound "lt" high e
  let e := bound "multipleOf" (schema.value "multipleOf") e
  e.describe (schema.value "description") env.describes

/-! ## Enums inside other schemas -/

/-- An enum without a name: truth values only, texts only, or a union of literals. -/
def compileEnum (values : List Value) : Expression :=
  if !values.isEmpty && values.all Value.isBool then zod "boolean" []
  else if values.all Value.isText then zod "enum" [.array (values.map Node.literal)]
  else zod "union" [.array (values.map fun v => (zod "literal" [.literal v]).toNode)]

end SchemaForge.Compile
