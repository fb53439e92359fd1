import SchemaForge.Config.Context
import SchemaForge.Log
import SchemaForge.Naming.Allocation

/-!
# Names of constants and types

Every named schema gets a constant and a type, each with a name that no other schema has. Names are
allocated in document order, so the same schemas get the same names whatever is compiled with them.
-/

namespace SchemaForge

/-- The names of one schema's constant and type. -/
structure NameEntry where
  schema : String
  const : String
  type : String
deriving DecidableEq, Repr

/-- The allocated names, in document order. -/
structure NameTable where
  entries : List NameEntry := []
  /-- The constants taken, without their ending. -/
  consts : List String := []
  /-- The types taken. -/
  types : List String := []
  records : List LogRecord := []

namespace NameTable

/-- The ending of every constant. -/
def constEnding : String := "Schema"

/-- The constant that a schema name asks for, without its ending. -/
def constBase (ctx : Context) (stripped : String) : Except Fault String :=
  Naming.camelCase ctx.constPrefix ctx.constSuffix stripped

/-- What a name that is not a text fails with: it is first stripped, then put in camel case. -/
def nameFault (strip : Naming.StripOption) : Fault :=
  match strip.patterns.dropWhile fun p => p == .text "" with
  | .text p :: _ => if Naming.isGlob p.toList then .wrongKind else .noMember
  | _ => .wrongKind

/-- Allocates the names of one schema. -/
def add (ctx : Context) (table : NameTable) (name : Scalar) : Except Fault NameTable :=
  match name with
  | .text schema => do
    let stripped ← Naming.strip ctx.strip schema
    let base ← constBase ctx stripped
    let const := Naming.freeName base table.consts
    let type := Naming.freeName (Naming.pascalCase stripped) table.types
    let record :=
      if const == base then []
      else [warn .compiler ("Schema name " ++ schema ++ " collides with another schema, using " ++
        const ++ constEnding)]
    return {
      entries := table.entries ++ [⟨schema, const ++ constEnding, type⟩]
      consts := table.consts ++ [const]
      types := table.types ++ [type]
      records := table.records ++ record }
  | _ => .error (nameFault ctx.strip)

/-- Allocates the names of all schemas. -/
def ofSchemas (ctx : Context) (schemas : Fields) : Except Fault NameTable :=
  schemas.names.foldlM (add ctx) {}

def find? (table : NameTable) (name : String) : Option NameEntry :=
  table.entries.find? fun e => e.schema == name

/-- The constant of a schema; a name outside the document gets the one it asks for. -/
def constName (table : NameTable) (ctx : Context) (name : String) : Except Fault String :=
  match table.find? name with
  | some e => .ok e.const
  | none => do
    let base ← constBase ctx (← Naming.strip ctx.strip name)
    return base ++ constEnding

/-- The type of a schema; a name outside the document gets the one it asks for. -/
def typeName (table : NameTable) (ctx : Context) (name : String) : Except Fault String :=
  match table.find? name with
  | some e => .ok e.type
  | none => do return Naming.pascalCase (← Naming.strip ctx.strip name)

end NameTable

end SchemaForge
