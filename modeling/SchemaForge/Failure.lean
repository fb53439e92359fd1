import SchemaForge.Document.Display
import SchemaForge.Naming.Identifier

/-!
# Failures

Why a run ends without a result. A failure is a cause; `Failure.message` gives its wording and
`Failure.context` the details that go with it. Failures are of five classes of the program's own,
besides faults of malformed input and failures of the file system.
-/

namespace SchemaForge

/-- What a document is read for. -/
inductive DocumentRole where
  | specification
  | configuration
deriving DecidableEq, Repr

inductive Failure where
  /-- An option has a value that is not one of its choices. -/
  | badChoice (value : Value) (option : String) (choices : List String)
  | depthNotPositive (value : Value)
  | cacheNotPositive (value : Value)
  /-- The pattern for date-times is no regular expression. -/
  | badDateTimePattern (pattern : String)
  | fileNotFound (role : DocumentRole) (path : String)
  | emptyDocument (source : String)
  | invalidJson (role : DocumentRole)
  /-- A text is neither JSON nor YAML. -/
  | unreadable (role : DocumentRole)
  | notAMapping (role : DocumentRole) (kind : String)
  /-- The document is of an older specification. -/
  | unsupportedVersion (version : Value)
  | documentNotMapping
  | noSchemas
  | schemaNotObject (name : Scalar) (kind : String)
  /-- A reference points to a schema that does not exist. -/
  | unresolved (ref path : String) (owner : Scalar)
  | notASchema (kind : String) (owner : Option String)
  | tooDeep (limit : Value) (owner : Option String)
  /-- A named schema is malformed. -/
  | malformed (name : String)
  | missingImport
  | noDefinitions
  | fault (fault : Fault)
  | fileSystem
deriving Inhabited

/-- The classes of failures. -/
inductive FailureClass where
  | configuration
  | specification
  | unresolvedReference
  | generation
  | depth
  | fault (fault : Fault)
  | fileSystem
deriving DecidableEq, Repr

namespace Failure

def ofRole : DocumentRole → FailureClass
  | .specification => .specification
  | .configuration => .configuration

def failureClass : Failure → FailureClass
  | .badChoice _ _ _ => .configuration
  | .depthNotPositive _ => .configuration
  | .cacheNotPositive _ => .configuration
  | .badDateTimePattern _ => .configuration
  | .fileNotFound role _ => ofRole role
  | .emptyDocument _ => .specification
  | .invalidJson role => ofRole role
  | .unreadable role => ofRole role
  | .notAMapping role _ => ofRole role
  | .unsupportedVersion _ => .specification
  | .documentNotMapping => .specification
  | .noSchemas => .specification
  | .schemaNotObject _ _ => .specification
  | .unresolved _ _ _ => .unresolvedReference
  | .notASchema _ _ => .generation
  | .tooDeep _ _ => .depth
  | .malformed _ => .generation
  | .missingImport => .generation
  | .noDefinitions => .generation
  | .fault f => .fault f
  | .fileSystem => .fileSystem

/-- How a schema is called in messages; one without a name stands inside another. -/
def ownerText (owner : Option String) : String :=
  match owner with
  | some name => if name == "" then "<inline>" else name
  | none => "<inline>"

/-- The wording of a failure. -/
def message : Failure → String
  | .badChoice value option choices =>
    "Invalid value " ++ value.shown ++ " for '" ++ option ++ "' (expected one of: " ++
      Text.join ", " choices ++ ")"
  | .depthNotPositive value => "max_depth must be positive, got " ++ value.display
  | .cacheNotPositive value => "cache_size must be positive, got " ++ value.display
  | .badDateTimePattern pattern =>
    "Invalid regular expression pattern for custom_date_time_format_regex: " ++ pattern
  | .fileNotFound _ path => "File not found: " ++ path
  | .emptyDocument source => "OpenAPI document is empty: " ++ source
  | .invalidJson _ => "Invalid JSON"
  | .unreadable _ => "Failed to parse document as JSON or YAML"
  | .notAMapping _ kind => "Document must be a JSON/YAML object (got " ++ kind ++ ")"
  | .unsupportedVersion version =>
    "Swagger " ++ version.display ++
      " is not supported. Only OpenAPI 3.0.x and 3.1.x documents are supported."
  | .documentNotMapping => "OpenAPI document must be a mapping"
  | .noSchemas => "No schemas found in OpenAPI spec (components.schemas is missing or empty)"
  | .schemaNotObject name kind =>
    "Schema '" ++ name.display ++ "' must be an object, got " ++ kind
  | .unresolved ref path _ =>
    "Invalid reference" ++ (if path == "" then "" else " at '" ++ path ++ "'") ++ ": '" ++ ref ++
      "' points to non-existent schema '" ++ Naming.targetName ref ++ "'"
  | .notASchema kind _ => "Expected a schema object, got " ++ kind
  | .tooDeep limit owner =>
    "Maximum schema nesting depth of " ++ limit.display ++ " exceeded while compiling '" ++
      ownerText owner ++ "'"
  | .malformed name => "Failed to generate schema '" ++ name ++ "'"
  | .missingImport => "Generated file is missing the zod import"
  | .noDefinitions => "Generated file has no schema definitions"
  | .fault (.badValue message) => message
  | .fault _ => ""
  | .fileSystem => ""

/-- The details of a failure. -/
def context : Failure → List (String × Value)
  | .badDateTimePattern pattern => [("pattern", .text pattern)]
  | .schemaNotObject name _ => [("schema_name", .scalar name)]
  | .unresolved ref path owner =>
    [("ref", .text ref), ("ref_name", .text (Naming.targetName ref)), ("path", .text path),
     ("schema_name", .scalar owner)]
  | .tooDeep limit _ => [("max_depth", limit)]
  | _ => []

/-- The named schema whose compilation failed. -/
def owner : Failure → Option String
  | .notASchema _ owner => owner
  | .tooDeep _ owner => owner
  | .malformed name => some name
  | _ => none

/-- A result that may be a fault, as one that may be a failure. -/
def lift {α : Type} (r : Except Fault α) : Except Failure α := r.mapError .fault

end Failure

end SchemaForge
