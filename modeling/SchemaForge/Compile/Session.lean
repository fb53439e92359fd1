import SchemaForge.Expression.Printer
import SchemaForge.Failure
import SchemaForge.Log
import SchemaForge.Recency

/-!
# Sessions

What the compilation of one named schema, or of one schema without a name, gathers on its way: the
schemas it depends on, the conflicts and warnings it met, and how deep it is. Lists keep their order
and never hold an entry twice.

`Compile` is a computation that may fail and that works on a session, on the caches that one
generator owns, and on a log. What was gathered before a failure is kept.
-/

namespace SchemaForge

structure Session where
  /-- The schema being compiled; none for a schema that stands for itself. -/
  name : Option String := none
  dependencies : List String := []
  conflicts : List String := []
  warnings : List String := []
  /-- How many schemas are being compiled inside each other. -/
  depth : Nat := 0
deriving DecidableEq, Repr, Inhabited

/-- The caches of one generator. -/
structure Caches where
  /-- Patterns escaped for use between slashes. -/
  patterns : Recency String String
  /-- Schemas compiled without a name, by their canonical text and the options that matter. -/
  schemas : Recency String Expression

/-- What a computation works on. -/
structure Progress where
  session : Session
  caches : Caches
  log : List LogRecord := []

/-- A computation that may fail; its progress is kept either way. -/
abbrev Compile := ExceptT Failure (StateM Progress)

namespace Compile

/-- A fault is a failure. -/
instance : MonadLift (Except Fault) Compile where
  monadLift
    | .ok a => pure a
    | .error f => throw (.fault f)

def fail {α : Type} (failure : Failure) : Compile α := throw failure

/-- The session as it stands. -/
def session : Compile Session := return (← get).session

def modifySession (f : Session → Session) : Compile Unit :=
  modify fun p => { p with session := f p.session }

/-- Adds records to the log. -/
def report (records : List LogRecord) : Compile Unit :=
  modify fun p => { p with log := p.log ++ records }

/-- Runs a computation one level deeper, and comes back up whether it fails or not. -/
def nested {α : Type} (act : Compile α) : Compile α := ExceptT.mk fun p =>
  let (result, q) := act.run { p with session := { p.session with depth := p.session.depth + 1 } }
  (result, { q with session := { q.session with depth := q.session.depth - 1 } })

/-- Runs a computation in a session of its own, which it gives too; the session at hand is left
alone. Failures are reported as `report` says. -/
def inSession {α : Type} (s : Session) (act : Compile α) (report : Failure → Failure) :
    Compile (α × Session) := ExceptT.mk fun p =>
  let (result, q) := act.run { p with session := s }
  ((result.mapError report).map fun a => (a, q.session), { q with session := p.session })

/-! ## What a session gathers -/

def addDependency (name : String) : Compile Unit :=
  modifySession fun s =>
    if s.dependencies.contains name then s
    else { s with dependencies := s.dependencies ++ [name] }

def addConflict (conflict : String) : Compile Unit := do
  let s ← session
  if s.conflicts.contains conflict then return ()
  else
    modifySession fun s => { s with conflicts := s.conflicts ++ [conflict] }
    report [warn .compiler
      ("allOf composition conflict in " ++ Failure.ownerText s.name ++ ": " ++ conflict)]

def addWarning (message : String) : Compile Unit := do
  let s ← session
  if s.warnings.contains message then return ()
  else
    modifySession fun s => { s with warnings := s.warnings ++ [message] }
    report [warn .compiler message]

/-! ## Caches -/

/-- A pattern for use between slashes, from the cache if it is there. -/
def escapedPattern (pattern : Value) : Compile String := do
  match pattern with
  | .text p =>
    let (found, patterns) := (← get).caches.patterns.find p
    match found with
    | some escaped =>
      modify fun s => { s with caches := { s.caches with patterns := patterns } }
      return escaped
    | none =>
      let escaped := Literal.regex p
      modify fun s => { s with caches := { s.caches with patterns := patterns.set p escaped } }
      return escaped
  | _ => fail (.fault .wrongKind)

/-- A compiled schema, from the cache if it is there and else put there. -/
def cached (key : String) (act : Compile Expression) : Compile Expression := do
  let (found, schemas) := (← get).caches.schemas.find key
  match found with
  | some e =>
    modify fun s => { s with caches := { s.caches with schemas := schemas } }
    return e
  | none =>
    let e ← act
    modify fun s => { s with caches := { s.caches with schemas := s.caches.schemas.set key e } }
    return e

end Compile

end SchemaForge
