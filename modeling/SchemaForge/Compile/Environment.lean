import SchemaForge.Compile.NameTable
import SchemaForge.Compile.Session
import SchemaForge.Reference.Graph

/-!
# Environments

What compilation reads and never changes: the named schemas, the options, the reference graph and
the names of constants and types. A view for requests or responses differs only in its options.
-/

namespace SchemaForge

structure Environment where
  schemas : Fields
  context : Context
  graph : Reference.Graph
  names : NameTable

namespace Environment

/-- The environment of some named schemas. -/
def make (schemas : Fields) (context : Context) (graph : Reference.Graph) :
    Except Fault Environment := do
  let names ← NameTable.ofSchemas context schemas
  return { schemas, context, graph, names }

/-- The view with the overrides of an option; names are allocated again. -/
def view (env : Environment) (option : OverridesOption) : Except Fault Environment := do
  make env.schemas (← env.context.withOption option) env.graph

/-- The caches that a generator starts with. -/
def caches (env : Environment) : Caches where
  patterns := .empty env.context.patternCapacity
  schemas := .empty (.atMost Context.schemaCapacity)

/-- The schema that a reference points to; a null in its place counts as none. -/
def resolve? (env : Environment) (ref : Value) : Except Fault (Option Value) := do
  let name ← Naming.targetOf ref
  match env.schemas.value name with
  | .null => return none
  | v => return some v

def constName (env : Environment) (name : String) : Except Fault String :=
  env.names.constName env.context name

def typeName (env : Environment) (name : String) : Except Fault String :=
  env.names.typeName env.context name

/-- Whether descriptions become calls. -/
def describes (env : Environment) : Bool := env.context.useDescribe.isSet

/-- Whether descriptions become comments. -/
def comments (env : Environment) : Bool := env.context.includeDescriptions.isSet

end Environment

/-- Compiles a schema inside another; the flag says that the default for null does not apply. -/
abbrev Inner := Value → Bool → Compile Expression

end SchemaForge
