import SchemaForge.Compile.Environment

/-!
# Rules between the properties of an object

That one property asks for others, or for a whole schema, and that one schema decides which of two
others holds. Each rule becomes a modifier at the end of the object's chain.
-/

namespace SchemaForge.Compile

open Text

/-- A refinement that reports issues of its own. -/
def superRefine (parts : List Part) : Modifier :=
  .mk "superRefine" [.code ([.text "(obj, ctx) => \x7b "] ++ parts ++ [.text " \x7d"])]

/-- The check that the presence of one property asks for others. -/
def requiredCheck (property : Scalar) (required : List Value) : Except Fault String := do
  let read ← Literal.accessOf "obj" property
  let names ← Json.write Json.ascii (.list required)
  let place ← Json.writeNames Json.ascii [property]
  return "if (" ++ read ++ " !== undefined) \x7b const missing = " ++ names ++
    ".filter((dep) => obj[dep] === undefined); if (missing.length > 0) \x7b " ++
    "ctx.addIssue(\x7b code: \"custom\", message: `When '" ++ property.display ++
    "' is present, $\x7bmissing.join(\", \")\x7d must also be present`, path: " ++ place ++ " \x7d); \x7d \x7d"

/-- `dependentRequired`: one modifier with a check for every entry. -/
def dependentRequired (schema : Fields) : Except Fault (List Modifier) :=
  match schema.value "dependentRequired" with
  | .object entries => do
    let checks ← (entries.filter fun f => f.2.isSet).mapM fun f => do
      requiredCheck f.1 (← f.2.walk)
    if checks.isEmpty then return [] else return [superRefine [.text (join " " checks)]]
  | _ => .ok []

/-- The modifier for a schema that the presence of a property asks for. -/
def dependentSchema (inner : Inner) (property : Scalar) (schema : Fields) : Compile Modifier := do
  let compiled ← inner (.object schema) true
  let message := Literal.string ("When '" ++ property.display ++
    "' is present, the object must satisfy additional constraints: ")
  let read ← Literal.accessOf "obj" property
  let place ← Json.writeNames Json.ascii [property]
  return superRefine
    [.text ("if (" ++ read ++ " !== undefined) \x7b const result = "), .node compiled.toNode,
     .text (".safeParse(obj); if (!result.success) \x7b ctx.addIssue(\x7b code: \"custom\", message: " ++
       message ++ " + result.error.issues.map((issue) => (issue.path.length > 0 ? " ++
       "issue.path.join(\".\") + \": \" : \"\") + issue.message).join(\"; \"), path: " ++ place ++
       " \x7d); \x7d \x7d")]

/-- `dependencies`: a list asks for properties, an object for a schema. -/
def dependencies (inner : Inner) (schema : Fields) : Compile (List Modifier) :=
  match schema.value "dependencies" with
  | .object entries => do
    let found ← entries.mapM fun (property, dependency) => do
      match dependency with
      | .list [] => pure []
      | .list required => pure [superRefine [.text (← requiredCheck property required)]]
      | .object schema => pure [← dependentSchema inner property schema]
      | _ => pure []
    return found.flatten
  | _ => pure []

/-- The check of one branch; a branch that is no schema always holds. -/
def branchCheck (inner : Inner) (branch : Value) : Compile (List Part) := do
  if branch.isObject then
    return [.node (← inner branch true).toNode, .text ".safeParse(obj).success"]
  else return [.text "true"]

/-- `if`, `then` and `else`. -/
def ifThenElse (inner : Inner) (schema : Fields) : Compile (List Modifier) := do
  let condition := schema.value "if"
  let yes := schema.value "then"
  let no := schema.value "else"
  if condition.isObject && (yes.isObject || no.isObject) then
    let test ← inner condition true
    let yes ← branchCheck inner yes
    let no ← branchCheck inner no
    return [superRefine
      ([.text "const matchesIf = ", .node test.toNode,
        .text ".safeParse(obj).success; const valid = matchesIf ? "] ++ yes ++ [.text " : "] ++ no ++
        [.text ("; if (!valid) \x7b ctx.addIssue(\x7b code: \"custom\", message: matchesIf ? " ++
          "\"Conditional validation failed: object does not match the 'then' schema\" : " ++
          "\"Conditional validation failed: object does not match the 'else' schema\" \x7d); \x7d")])]
  else return []

end SchemaForge.Compile
