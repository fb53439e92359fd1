import SchemaForge.Log
import SchemaForge.Reference.Components
import SchemaForge.Reference.Names

/-!
# The reference graph

Which named schemas refer to which. Schemas that reach each other form a component, and a schema
that reaches itself is circular. Components stand in the order in which they can be written: every
component after those it refers to, and its members in document order.
-/

namespace SchemaForge.Reference

/-- The reference graph of the named schemas of a document. -/
structure Graph where
  /-- The named schemas that each schema refers to, in document order. -/
  dependencies : Adjacency := []
  /-- The schemas that reach each other, dependencies before dependents. -/
  components : List (List String) := []
  /-- The schemas that reach themselves. -/
  circular : List String := []

namespace Graph

/-- A component is a cycle if it has several members, or one that refers to itself. -/
def isCycle (a : Adjacency) : List String → Bool
  | [] => false
  | [n] => (a.of n).contains n
  | _ => true

/-- The graph of an adjacency. -/
def ofAdjacency (a : Adjacency) : Graph :=
  let found := Reference.components a.of (a.map (·.1))
  { dependencies := a
    components := found
    circular := (found.filter (isCycle a)).flatten }

/-- The named schemas that each named schema refers to. -/
def adjacency (schemas : Fields) : Except Fault Adjacency := do
  let found ← schemas.mapM fun f => do
    let names ← names f.2
    return (f.1, names.filter schemas.has)
  return found.filterMap fun (name, targets) =>
    match name with
    | .text n => some (n, targets)
    | _ => none

/-- The reference graph of named schemas. -/
def ofSchemas (schemas : Fields) : Except Fault Graph := (adjacency schemas).map ofAdjacency

/-- The order in which schemas are written: every schema after those it depends on. -/
def order (g : Graph) : List String := g.components.flatten

def isCircular (g : Graph) (name : String) : Bool := g.circular.contains name

/-- Both names are circular and belong to the same component. -/
def inSameCycle (g : Graph) (a b : String) : Bool :=
  g.isCircular a && g.isCircular b && g.components.any fun c => c.contains a && c.contains b

/-- Names in the order of their characters. -/
def sortNames (names : List String) : List String := names.mergeSort fun a b => !(b < a)

/-- What is reported of a graph when it has been built. -/
def records (g : Graph) : List LogRecord :=
  let list (names : List String) := (Value.list (names.map Value.text)).shown
  [⟨.debug, .graph, "Circular schemas: " ++ list (sortNames g.circular)⟩,
   ⟨.debug, .graph, "Emission order: " ++ list g.order⟩]

end Graph

end SchemaForge.Reference
