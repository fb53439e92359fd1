import SchemaForge.Compile.Environment

/-!
# Arrays

Items at fixed places make a tuple, with a rest if there is a schema for it; otherwise all items
have one schema and the array may have constraints on its length. That items are distinct, and that
some of them match a schema, become refinements.
-/

namespace SchemaForge.Compile

/-- A tuple; without a schema for the rest it may be closed. -/
def compileTuple (inner : Inner) (schema : Fields) : Compile Expression := do
  let places ← (schema.value "prefixItems").walk
  let compiled ← places.mapM fun item => inner item false
  let e := zod "tuple" [.array (compiled.map Expression.toNode)]
  let items := schema.value "items"
  let rest := if items.isObject then items else schema.value "unevaluatedItems"
  if rest.isObject then return e.andThen "rest" [(← inner rest false).toNode]
  else if items == .bool false || schema.value "unevaluatedItems" == .bool false then
    let count := intText places.length
    return e.andThen "refine"
      [codeText ("(arr) => arr.length <= " ++ count),
       messageOptions ("Array must not have more than " ++ count ++ " items")]
  else return e

/-- An array whose items have one schema. -/
def compileList (inner : Inner) (schema : Fields) : Compile Expression := do
  let items := schema.value "items"
  let item ← if items.isObject then inner items false else pure (zod "unknown" [])
  let e := zod "array" [item.toNode]
  let least := schema.value "minItems"
  let most := schema.value "maxItems"
  let e := if least.isNull then e else e.andThen "min" [.literal least]
  return if most.isNull then e else e.andThen "max" [.literal most]

/-- The message for an array with too few or too many matching items. -/
def containsMessage (least : String) (most : Option String) : String :=
  match most with
  | none => "Array must contain at least " ++ least ++ " matching item(s)"
  | some most =>
    "Array must contain at least " ++ least ++ " and at most " ++ most ++ " matching item(s)"

/-- The refinement for the number of items that match a schema. -/
def compileContains (inner : Inner) (schema : Fields) (e : Expression) : Compile Expression := do
  let contains := schema.value "contains"
  if contains.isObject then
    let least := ((schema.get? "minContains").getD (.int 1)).display
    let most := schema.value "maxContains"
    let most := if most.isNull then none else some most.display
    let bound := "matches >= " ++ least ++
      (match most with
        | some m => " && matches <= " ++ m
        | none => "")
    let item ← inner contains true
    return e.andThen "refine"
      [.code [.text "(arr) => \x7b const matches = arr.filter((item) => ", .node item.toNode,
         .text (".safeParse(item).success).length; return " ++ bound ++ "; \x7d")],
       messageOptions (containsMessage least most)]
  else return e

/-- An array schema. -/
def compileArray (env : Environment) (inner : Inner) (schema : Fields) : Compile Expression := do
  let e ←
    if (schema.value "prefixItems").isSet then compileTuple inner schema
    else compileList inner schema
  let e :=
    if schema.value "uniqueItems" == .bool true then
      e.andThen "refine"
        [codeText "(items) => new Set(items).size === items.length",
         messageOptions "Array items must be unique"]
    else e
  let e ← compileContains inner schema e
  return e.describe (schema.value "description") env.describes

end SchemaForge.Compile
