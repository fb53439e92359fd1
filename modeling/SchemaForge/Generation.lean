import SchemaForge.Compile.Basic
import SchemaForge.Definition
import SchemaForge.EnumDeclaration
import SchemaForge.Logged
import SchemaForge.Specification
import SchemaForge.Usage

/-!
# Generation

From a document to its definitions. A `Generator` is a document that was checked, with its reference
graph, the usage of its schemas, and one environment for requests and one for responses. `run`
compiles every named schema in document order; schemas that only responses use are compiled with
the options for responses, all others with those for requests.
-/

namespace SchemaForge

open Schema

/-- A document that was checked and is ready to be compiled. -/
structure Generator where
  config : Config
  schemas : Fields
  graph : Reference.Graph
  usage : List (Scalar × Usage)
  requests : Environment
  responses : Environment
  /-- The caches that all schemas share. -/
  caches : Caches

/-- The definitions of a document. -/
structure Generation where
  /-- The definitions in document order. -/
  definitions : List Definition
  /-- The names of the schemas in the order in which they are written. -/
  order : List String

namespace Generator

/-- Builds an environment and reports the names that collide. -/
def announced (env : Except Fault Environment) : Logged Environment := do
  let env ← env
  Logged.report env.names.records
  return env

/-- Checks a document and prepares its compilation. -/
def ofDocument (document : Value) (config : Config) : Logged Generator := do
  let context ← Context.ofConfig config
  let schemas ← Specification.schemas document
  Specification.checkReferences schemas
  let graph ← Reference.Graph.ofSchemas schemas
  Logged.report graph.records
  let fields ← document.fields
  let usage ← Usage.analyze fields graph.circular
  let base ← announced (Environment.make schemas context graph)
  let requests ← announced (base.view config.request)
  let responses ← announced (base.view config.response)
  return { config, schemas, graph, usage, requests, responses, caches := base.caches }

/-- The usage of a schema, if it is used. -/
def usageOf (g : Generator) (name : String) : Option Usage := g.usage.lookup (.text name)

/-- The environment that a schema is compiled in. -/
def environment (g : Generator) (name : String) : Environment :=
  match g.usageOf name with
  | some .response => g.responses
  | _ => g.requests

/-- The form of a named schema; a truth value has none. -/
def formOf? : Value → Except Fault (Option Form)
  | .object schema => (classify schema).map some
  | _ => .ok none

/-- The comment of a named schema; an example that cannot be written is reported. -/
def commentOf (env : Environment) (name : String) (schema : Value) : Logged String := do
  let (comment, records) := Comment.ofSchema schema (.text name) env.comments
  Logged.report records
  return comment

/-- The definition of a named enum. -/
def defineEnum (env : Environment) (style : EnumStyle) (name const type : String) (schema : Value)
    (values : List Value) : Logged Definition := do
  let fields ← schema.fields
  let enum := EnumDeclaration.ofValues type values style
  let e := enum.validator.nullableIf (isNullable fields false)
  return {
    name, const, type
    expression := e.describe (fields.value "description") env.describes
    comment := ← commentOf env name schema
    enumCode := enum.code }

/-- The definition of a named schema that is not an enum, and the caches after its compilation. -/
def defineSchema (env : Environment) (caches : Caches) (name const type : String)
    (schema : Value) : Logged (Definition × Caches) := do
  let (result, progress) := (Compile.compileNamed env name schema).run { session := {}, caches }
  Logged.report progress.log
  let (expression, session) ← result
  let comment ← commentOf env name schema
  return ({
    name, const, type, expression
    comment := Comment.withConflicts comment session.conflicts
    dependencies := session.dependencies
    conflicts := session.conflicts
    warnings := session.warnings }, progress.caches)

/-- The definition of a named schema, and the caches after its compilation. -/
def define (g : Generator) (caches : Caches) (name : String) (schema : Value) :
    Logged (Definition × Caches) := do
  Logged.report [⟨.debug, .assembly, "Compiling schema " ++ name⟩]
  let env := g.environment name
  let const ← env.constName name
  let type ← env.typeName name
  match ← formOf? schema with
  | some (.enum values) =>
    return (← defineEnum env g.config.enumStyle name const type schema values, caches)
  | _ => defineSchema env caches name const type schema

/-- The definitions of some schemas, one after another. -/
def defineAll (g : Generator) (caches : Caches) : Fields → Logged (List Definition)
  | [] => return []
  | (.text name, schema) :: rest => do
    let (d, caches) ← g.define caches name schema
    let ds ← g.defineAll caches rest
    return d :: ds
  | _ :: rest => g.defineAll caches rest

/-- Compiles every named schema. -/
def run (g : Generator) : Logged Generation := do
  let definitions ← g.defineAll g.caches g.schemas
  return { definitions, order := g.graph.order }

end Generator

namespace Generation

def find? (r : Generation) (name : String) : Option Definition :=
  r.definitions.find? fun d => d.name == name

/-- The definitions in the order in which they are written. -/
def ordered (r : Generation) : List Definition := r.order.filterMap r.find?

/-- What the user is warned of: the conflicts and warnings of each schema. -/
def warnings (r : Generation) : List String :=
  r.definitions.flatMap fun d => d.conflicts.map (fun c => d.name ++ ": " ++ c) ++ d.warnings

def statistics (r : Generation) : Statistics := .ofDefinitions r.ordered

end Generation

end SchemaForge
