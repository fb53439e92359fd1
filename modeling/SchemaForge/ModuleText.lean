import SchemaForge.Generation

/-!
# Module texts

A generated module: a header that says where it comes from, statistics if asked for, imports, and
one block for each definition, every one after those it refers to.
-/

namespace SchemaForge.ModuleText

open Text

/-- The name and version of the program, as headers give them. -/
def programName : String := "openapi_to_zod"

def programVersion : String := "1.0.0"

/-- The line that says how the module was generated. -/
def commandComment (command : String) : String :=
  "// Generated by " ++ programName ++ " v" ++ programVersion ++ " : " ++ command

/-- The comment with statistics. -/
def statisticsLines (s : Statistics) : List String :=
  ["",
   "// Generation Statistics:",
   "//   Total schemas: " ++ intText s.total,
   "//   Circular references: " ++ intText s.deferred,
   "//   Discriminated unions: " ++ intText s.discriminated,
   "//   With constraints: " ++ intText s.constrained,
   "//   AllOf conflicts: " ++ intText s.conflicts]

/-- The types that definitions take from a file of types, in order and each once. -/
def typeImports (ds : List Definition) : List String :=
  Reference.Graph.sortNames (ds.flatMap Definition.namedTypes).eraseDups

/-- The line that imports types. -/
def typeImportLine (types : List String) (path : Value) : List String :=
  if types.isEmpty then []
  else ["import type \x7b " ++ join ", " types ++ " \x7d from \"" ++ path.display ++ "\";"]

/-- The line that imports the validation library. -/
def libraryImport : String := "import \x7b z \x7d from \"zod\";"

/-- The lines before the definitions. -/
def header (config : Config) (command : String) (r : Generation) : List String :=
  ["// Auto-generated by openapi-to-zod",
   "// Do not edit this file manually",
   commandComment command] ++
  (if config.showStats.isSet then statisticsLines r.statistics else []) ++
  ["", libraryImport] ++
  (if config.separateTypes.isSet then typeImportLine (typeImports r.ordered) config.typesPath
    else []) ++
  ["", "// Schemas and Types"]

/-- The text of a module, generated by a command. -/
def render (config : Config) (command : String) (r : Generation) : Except Fault String := do
  let blocks ← r.ordered.mapM fun d => d.block (!config.separateTypes.isSet)
  return join "\n" (header config command r) ++ "\n\n" ++ join "\n\n" blocks ++ "\n"

end SchemaForge.ModuleText
