import SchemaForge.Compile.Objects

/-!
# Unevaluated properties

Properties that neither a schema nor its branches declare may be forbidden or have to match a
schema. The check is a refinement, so other properties have to be let through to it first; it stands
before a final `nullable`.
-/

namespace SchemaForge.Compile

/-- The constructors of objects. -/
def objectCallees : List String := ["z.object", "z.strictObject", "z.looseObject"]

/-- The constructors of unions, whose branches already let other properties pass. -/
def unionCallees : List String := ["z.union", "z.discriminatedUnion"]

/-- The properties of the branches under one keyword. -/
def branchNames (env : Environment) (schema : Fields) (keyword : String) :
    Except Fault (List Scalar) := do
  let branches ← (schema.value keyword).walkIfSet
  let found ← branches.mapM fun branch =>
    match branch with
    | .object fields => do
      let target ←
        match Fields.get? fields "$ref" with
        | some ref => do pure ((← env.resolve? ref).getD .null)
        | none => pure (.object fields)
      let target ← target.fieldsIfSet
      let properties ← (target.value "properties").fieldsIfSet
      return properties.names
    | _ => .ok []
  return found.flatten

/-- The names of a list, each where it first stands. -/
def distinctNames (names : List Scalar) : List Scalar :=
  names.foldl (fun found n => if found.any (·.same n) then found else found ++ [n]) []

/-- The properties that a schema and its branches declare. -/
def evaluatedNames (env : Environment) (schema : Fields) : Except Fault (List Scalar) := do
  let own ← (schema.value "properties").fieldsIfSet
  let branches ← ["allOf", "oneOf", "anyOf"].mapM (branchNames env schema)
  return distinctNames (own.names ++ branches.flatten)

/-- Lets other properties pass where an object or an extended one would stop them. -/
def admitUnevaluated (e : Expression) : Expression :=
  let isObject (callee : String) := objectCallees.contains callee && callee != "z.strictObject"
  let isUnion := e.callee.any unionCallees.contains
  if !isUnion && !e.hasModifier "catchall" &&
      (e.hasModifier "extend" || e.callee.any isObject) then admitAll e
  else e

/-- An expression with the check of unevaluated properties. -/
def checkUnevaluated (env : Environment) (inner : Inner) (schema : Fields) (e : Expression) :
    Compile Expression := do
  let refined (check : Expression → String → Compile Expression) : Compile Expression := do
    let nullable := e.isNullable
    let bare := if nullable then ⟨e.base, e.modifiers.dropLast⟩ else e
    let evaluated ← Json.writeNames Json.ascii (← evaluatedNames env schema)
    let checked ← check (admitUnevaluated bare) ("new Set(" ++ evaluated ++ ")")
    return checked.nullableIf nullable
  match schema.value "unevaluatedProperties" with
  | .bool false => refined fun e names =>
    return e.andThen "refine"
      [codeText ("(obj) => Object.keys(obj).every((key) => " ++ names ++ ".has(key))"),
       messageOptions "No unevaluated properties allowed"]
  | .object rule => refined fun e names => do
    let rule ← inner (.object rule) true
    return e.andThen "refine"
      [.code
        [.text ("(obj) => Object.keys(obj).filter((key) => !" ++ names ++ ".has(key)).every((key) => "),
         .node rule.toNode, .text ".safeParse(obj[key]).success)"],
       messageOptions "Unevaluated properties must match the schema"]
  | _ => return e

end SchemaForge.Compile
