/-!
# Log records

What a run reports besides its result: records with a level and the part of the program they come
from. Records below warnings are shown only when asked for.
-/

namespace SchemaForge

namespace Log

inductive Level where
  | debug
  | info
  | warning
deriving DecidableEq, Repr

def Level.name : Level → String
  | .debug => "DEBUG"
  | .info => "INFO"
  | .warning => "WARNING"

/-- The part of the program that a record comes from. -/
inductive Source where
  | comments
  | graph
  | compiler
  | assembly
  | loader
deriving DecidableEq, Repr

def Source.name : Source → String
  | .comments => "openapi_to_zod.jsdoc"
  | .graph => "openapi_to_zod.graph"
  | .compiler => "openapi_to_zod.property_generator"
  | .assembly => "openapi_to_zod.generator"
  | .loader => "openapi_to_zod.loader"

end Log

/-- A log record. -/
structure LogRecord where
  level : Log.Level
  source : Log.Source
  message : String
deriving DecidableEq, Repr

namespace LogRecord

/-- A record as a line: level, source, message. -/
def line (r : LogRecord) : String := r.level.name ++ " " ++ r.source.name ++ ": " ++ r.message

/-- A record in short: level and message. -/
def short (r : LogRecord) : String := r.level.name ++ ": " ++ r.message

def isWarning (r : LogRecord) : Bool := r.level == .warning

end LogRecord

/-- A warning of a part of the program. -/
def warn (source : Log.Source) (message : String) : LogRecord := ⟨.warning, source, message⟩

end SchemaForge
