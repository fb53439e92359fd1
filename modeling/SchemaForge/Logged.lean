import SchemaForge.Failure
import SchemaForge.Log

/-!
# Computations that report

`Logged` is a computation that may fail and that keeps a log. The log is kept when it fails: what
was reported before a failure can still be shown.
-/

namespace SchemaForge

/-- A computation that may fail and that adds to a log. -/
abbrev Logged := ExceptT Failure (StateM (List LogRecord))

namespace Logged

/-- A fault is a failure. -/
instance : MonadLift (Except Fault) Logged where
  monadLift
    | .ok a => pure a
    | .error f => throw (.fault f)

instance : MonadLift (Except Failure) Logged where
  monadLift
    | .ok a => pure a
    | .error f => throw f

/-- Adds records to the log. -/
def report (records : List LogRecord) : Logged Unit := modify (· ++ records)

/-- The result of a computation that starts with an empty log, and the log. -/
def result {α : Type} (act : Logged α) : Except Failure α × List LogRecord := act.run []

end Logged

end SchemaForge
