import SchemaForge.Comment
import SchemaForge.Compile.Conditions
import SchemaForge.Compile.Visible

/-!
# Objects

The declared properties make a shape; the options pick the constructor. What else is said about the
object follows in a fixed order: other properties, the number of properties, required properties
that are not declared, properties by pattern, the names of properties, and rules between properties.
-/

namespace SchemaForge.Compile

open Text

/-! ## Shapes -/

/-- The names among the required entries of a schema. -/
def requiredNames (schema : Fields) : Except Fault (List Scalar) := do
  let entries ← (schema.value "required").walkIfSet
  entries.mapM Value.asName

/-- One property of a shape; it is optional unless it is required. -/
def compileProperty (env : Environment) (inner : Inner) (required : List Scalar) (comments : Bool)
    (name : Scalar) (definition : Value) : Compile Property := do
  let e ← inner definition false
  let e := if required.any (·.same name) then e else e.andThen "optional" []
  if comments then
    let (comment, records) := Comment.ofSchema definition name env.comments
    report records
    return .mk name e.toNode comment
  else return .mk name e.toNode ""

/-- The visible declared properties of a schema. -/
def compileShape (env : Environment) (inner : Inner) (comments : Bool) (schema : Fields) :
    Compile Node := do
  let required ← requiredNames schema
  let properties ← (schema.value "properties").fieldsIfSet
  let visible := properties.filter fun f => env.context.visibility.shows f.2
  let compiled ← visible.mapM fun f => compileProperty env inner required comments f.1 f.2
  return .shape compiled

/-! ## Constructors -/

def constructorOf : ObjectMode → String
  | .strict => "strictObject"
  | .normal => "object"
  | .loose => "looseObject"

/-- An object without declared properties. -/
def compileEmptyObject : EmptyObject → Expression
  | .strict => zod "strictObject" [.shape []]
  | .record => zod "record" [(zod "string" []).toNode, (zod "unknown" []).toNode]
  | .loose => zod "looseObject" [.shape []]

/-- Lets all other properties pass. -/
def admitAll (e : Expression) : Expression := e.andThen "catchall" [(zod "unknown" []).toNode]

/-- Lets all other properties pass unless it is already said which do. -/
def ensureAdmits (e : Expression) : Expression := if e.hasModifier "catchall" then e else admitAll e

/-- The rule for other properties. Keys matched by patterns have to get through to the check of
their patterns. -/
def additional (inner : Inner) (schema : Fields) (e : Expression) : Compile Expression := do
  match schema.value "additionalProperties" with
  | .object fields =>
    return e.andThen "catchall" [(← inner (.object fields) false).toNode]
  | .bool true => return admitAll e
  | .null => return if (schema.value "patternProperties").isSet then admitAll e else e
  | _ => return e

/-! ## Number of properties -/

/-- The word for a number of properties. -/
def plural (count : Value) : String :=
  if count.same (.int 1) then "property" else "properties"

/-- The message for an object with too few or too many properties. -/
def propertyCountMessage (least most : Value) : String :=
  if least.isNull then
    "Object must have at most " ++ most.display ++ " " ++
      plural (if most.isSet then most else .int 0)
  else if most.isNull then
    "Object must have at least " ++ least.display ++ " " ++ plural least
  else "Object must have between " ++ least.display ++ " and " ++ most.display ++ " properties"

/-- The refinement for the number of properties. -/
def propertyCount (schema : Fields) (e : Expression) : Expression :=
  let least := schema.value "minProperties"
  let most := schema.value "maxProperties"
  let conditions :=
    (if least.isNull then [] else ["Object.keys(obj).length >= " ++ least.display]) ++
    (if most.isNull then [] else ["Object.keys(obj).length <= " ++ most.display])
  if conditions.isEmpty then e
  else
    e.andThen "refine"
      [codeText ("(obj) => " ++ join " && " conditions),
       messageOptions (propertyCountMessage least most)]

/-! ## Required properties without a definition -/

/-- The refinement for required properties that are not declared. -/
def undeclaredRequired (schema : Fields) (e : Expression) : Except Fault Expression := do
  let declared ← (schema.value "properties").fieldsIfSet
  let required ← requiredNames schema
  let missing := required.filter fun name => !declared.hasName name
  if missing.isEmpty then return e
  else
    let e := ensureAdmits e
    let reads ← missing.mapM (Literal.accessOf "obj")
    return e.andThen "refine"
      [codeText ("(obj) => " ++ join " && " (reads.map (· ++ " !== undefined"))),
       messageOptions ("Missing required fields: " ++ join ", " (missing.map Scalar.display))]

/-! ## Properties by pattern -/

/-- Nodes as parts of a text, with a comma between each two. -/
def commaParts : List Node → List Part
  | [] => []
  | [n] => [.node n]
  | n :: ns => .node n :: .text ", " :: commaParts ns

/-- The refinement for properties whose names match patterns. -/
def patternProperties (inner : Inner) (schema : Fields) (e : Expression) : Compile Expression := do
  match schema.value "patternProperties" with
  | .object (p :: ps) =>
    let patterns := p :: ps
    let declared ← (schema.value "properties").fieldsIfSet
    let compiled ← patterns.mapM fun f => inner f.2 false
    let names ← Json.writeNames Json.ascii declared.names
    let sources ← Json.writeNames Json.ascii (Fields.names patterns)
    return e.andThen "superRefine"
      [.code
        ([.text "(obj, ctx) => \x7b ", .text ("const definedProps = new Set(" ++ names ++ "); "),
          .text ("const patterns = " ++ sources ++ "; "), .text "const schemas = ["] ++
        commaParts (compiled.map Expression.toNode) ++
        [.text "]; const regexps = patterns.map((p) => new RegExp(p)); ",
         .text "for (const key of Object.keys(obj)) \x7b if (definedProps.has(key)) continue; ",
         .text "for (let i = 0; i < regexps.length; i++) \x7b if (regexps[i].test(key)) \x7b ",
         .text "const result = schemas[i].safeParse(obj[key]); ",
         .text "if (!result.success) \x7b for (const issue of result.error.issues) \x7b ",
         .text "ctx.addIssue(\x7b ...issue, path: [key, ...issue.path], ",
         .text "message: `Property '$\x7bkey\x7d' (pattern '$\x7bpatterns[i]\x7d'): $\x7bissue.message\x7d` \x7d); \x7d \x7d ",
         .text "break; \x7d \x7d \x7d \x7d"])]
  | _ => return e

/-! ## Names of properties -/

/-- The check of one constraint on the names of properties. -/
def nameCheck (test failure : String) : String :=
  "if (" ++ test ++ ") failures.push(" ++ Literal.string failure ++ ");"

/-- The checks on the names of properties. -/
def nameChecks (rules : Fields) : Except Fault (List String) := do
  let pattern := rules.value "pattern"
  let least := rules.value "minLength"
  let most := rules.value "maxLength"
  let byPattern ←
    if pattern.isNull then pure []
    else do
      let source ← Literal.regexOf pattern
      pure [nameCheck ("!/" ++ source ++ "/.test(key)")
        ("must match pattern '" ++ pattern.display ++ "'")]
  return byPattern ++
    (if least.isNull then []
      else [nameCheck ("key.length < " ++ least.display)
        ("must be at least " ++ least.display ++ " characters")]) ++
    (if most.isNull then []
      else [nameCheck ("key.length > " ++ most.display)
        ("must be at most " ++ most.display ++ " characters")])

/-- The refinement for the names of properties. -/
def propertyNames (schema : Fields) (e : Expression) : Except Fault Expression :=
  match schema.value "propertyNames" with
  | .object rules => do
    let checks ← nameChecks rules
    if checks.isEmpty then return e
    else
      return e.andThen "superRefine"
        [.code
          [.text "(obj, ctx) => \x7b for (const key of Object.keys(obj)) \x7b const failures: string[] = []; ",
           .text (join " " checks),
           .text " if (failures.length > 0) \x7b ctx.addIssue(\x7b code: \"custom\", ",
           .text "message: `Property name '$\x7bkey\x7d' $\x7bfailures.join(\", \")\x7d`, path: [key] \x7d); \x7d \x7d \x7d"]]
  | _ => .ok e

/-! ## Objects -/

/-- The constructor of an object; one that allows no other properties is strict. -/
def objectConstructor (env : Environment) (schema : Fields) : String :=
  if schema.value "additionalProperties" == .bool false then "strictObject"
  else constructorOf env.context.mode

/-- An object about whose properties something is said. -/
def compileObject (env : Environment) (inner : Inner) (schema : Fields) : Compile Expression := do
  let shape ← compileShape env inner true schema
  let e := zod (objectConstructor env schema) [shape]
  let e ← additional inner schema e
  let e := propertyCount schema e
  let e ← undeclaredRequired schema e
  let e ← patternProperties inner schema e
  let e ← propertyNames schema e
  let fromDependencies ← dependencies inner schema
  let fromRequired ← dependentRequired schema
  let fromConditions ← ifThenElse inner schema
  return ⟨e.base, e.modifiers ++ fromDependencies ++ fromRequired ++ fromConditions⟩

end SchemaForge.Compile
