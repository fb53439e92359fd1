import SchemaForge.Compile.Branches
import SchemaForge.Compile.Objects

/-!
# `allOf`

If all branches describe objects, the result is the first branch extended by the shapes of the
others; otherwise the branches are intersected. Extending lets the later definition of a property
win, but here the first one is to count: what a later branch defines differently is reported as a
conflict and left out of its shape.
-/

namespace SchemaForge.Compile

open Text

/-! ## Conflicts -/

/-- A property met in a branch: its canonical text and the branch it comes from. -/
structure Seen where
  name : Scalar
  canonical : String
  source : String

/-- The conflicts found so far and the properties that each branch loses. -/
structure Scan where
  seen : List Seen := []
  conflicts : List String := []
  /-- For each branch, the properties that an earlier one defines differently. -/
  overridden : List (List Scalar) := []

/-- What a branch is called in messages. -/
def branchSource (branch : Value) : Except Fault String := do
  match ← branchRef? branch with
  | some ref => return Naming.targetName ref
  | none => return "inline"

/-- Compares one property of a branch with the first definition of its name. -/
def scanProperty (source : String) (scan : Scan) (losing : List Scalar) (name : Scalar)
    (definition : Value) : Except Fault (Scan × List Scalar) := do
  let canonical ← Json.write Json.canonical definition
  match scan.seen.find? fun s => s.name.same name with
  | none => return ({ scan with seen := scan.seen ++ [⟨name, canonical, source⟩] }, losing)
  | some first =>
    if canonical == first.canonical then return (scan, losing)
    else
      let conflict := "Property \"" ++ name.display ++ "\" has conflicting definitions in " ++
        first.source ++ " and " ++ source
      return ({ scan with conflicts := scan.conflicts ++ [conflict] }, losing ++ [name])

/-- Scans the properties of one branch. -/
def scanBranch (schemas : Fields) (scan : Scan) (branch : Value) : Except Fault Scan := do
  let source ← branchSource branch
  let properties ← propertiesOf schemas branch
  let (scan, losing) ← properties.foldlM
    (fun (acc : Scan × List Scalar) f => scanProperty source acc.1 acc.2 f.1 f.2) (scan, [])
  return { scan with overridden := scan.overridden ++ [losing] }

/-- Scans the branches one after another. -/
def scanBranches (schemas : Fields) (branches : List Value) : Except Fault Scan :=
  branches.foldlM (scanBranch schemas) {}

/-! ## Leaving properties out -/

/-- The argument that leaves properties out of a shape. -/
def omitMask (names : List Scalar) : Except Fault Node := do
  let keys ← names.mapM Literal.keyOf
  return codeText ("\x7b " ++ join ", " (keys.map (· ++ ": true")) ++ " \x7d")

/-- An expression without some properties. -/
def omitting (names : List Scalar) (e : Expression) : Except Fault Expression :=
  if names.isEmpty then .ok e else do return e.andThen "omit" [← omitMask names]

/-- A branch without some properties and their required entries. -/
def withoutProperties (names : List Scalar) (branch : Fields) : Except Fault Fields := do
  let properties ← (branch.value "properties").fieldsIfSet
  let kept := properties.filter fun f => !names.any (·.same f.1)
  let reduced := branch.put (.text "properties") (.object kept)
  match branch.get? "required" with
  | none => return reduced
  | some required =>
    let entries ← required.walk
    let left := entries.filter fun entry => !names.any fun n => entry.same (.scalar n)
    return reduced.put (.text "required") (.list left)

/-- The keywords of a branch that only describe its shape. -/
def shapeKeywords : List String := ["type", "properties", "required", "title", "description"]

/-- A branch that has no property left and says nothing else. -/
def isSpent (branch : Fields) : Bool :=
  !(branch.value "properties").isSet &&
    branch.names.all fun n => shapeKeywords.any fun k => n == .text k

/-- What is left of a branch after losing properties; none if nothing is. Branches that refer to
other schemas lose their properties when they are used. -/
def reduceBranch (omitted : List Scalar) (branch : Value) : Except Fault (Option Value) :=
  match branch with
  | .object fields =>
    let branch : Fields := fields
    if omitted.isEmpty || branch.has "$ref" || branch.has "allOf" then .ok (some (.object branch))
    else do
      let reduced ← withoutProperties omitted branch
      return if isSpent reduced then none else some (.object reduced)
  | other => .ok (some other)

/-! ## Extending and intersecting -/

/-- The shape that a branch adds; none if it has to be intersected. -/
def extension (env : Environment) (inner : Inner) (omitted : List Scalar) (branch : Fields) :
    Compile (Option Node) := do
  if branch.has "$ref" then
    let e ← inner (.object branch) true
    if e.isBareName then return some (.member (← omitting omitted e).toNode "shape")
    else return none
  else if branch.has "allOf" then
    let e ← inner (.object branch) true
    if e.isNullable || e.hasModifier "and" || !e.exposesShape then return none
    else return some (.member (← omitting omitted e).toNode "shape")
  else return some (← compileShape env inner false branch)

/-- The expression that a branch is intersected as. -/
def intersection (inner : Inner) (omitted : List Scalar) (branch : Value) : Compile Expression := do
  let e ← inner branch true
  if !omitted.isEmpty && (← branch.holds "$ref") && e.isBareName then omitting omitted e
  else return e

/-- The result so far, and whether it can still be extended. -/
structure Merge where
  result : Expression
  extensible : Bool

/-- Adds one branch to a composition. Once something was intersected, all that follows is too. -/
def mergeBranch (env : Environment) (inner : Inner) (m : Merge) (branch : Value)
    (omitted : List Scalar) : Compile Merge := do
  match ← reduceBranch omitted branch with
  | none => return m
  | some branch =>
    let argument ←
      match branch with
      | .object fields => if m.extensible then extension env inner omitted fields else pure none
      | _ => pure none
    match argument with
    | some shape => return { m with result := m.result.andThen "extend" [shape] }
    | none =>
      let e ← intersection inner omitted branch
      return { result := m.result.andThen "and" [e.toNode], extensible := false }

/-- Adds the branches one after another, each with the properties it loses. -/
def mergeBranches (env : Environment) (inner : Inner) (m : Merge) :
    List (Value × List Scalar) → Compile Merge
  | [] => return m
  | (branch, omitted) :: rest => do
    let m ← mergeBranch env inner m branch omitted
    mergeBranches env inner m rest

/-- Whether all branches describe objects, up to the first that does not. -/
def allObjectLike (schemas : Fields) : List Value → Except Fault Bool
  | [] => .ok true
  | branch :: rest => do
    if ← isObjectLike schemas branch then allObjectLike schemas rest else return false

/-- An `allOf` composition. A single branch is only another name for the branch. -/
def compileAllOf (env : Environment) (inner : Inner) (branches : List Value) (nullable : Bool) :
    Compile Expression := do
  match branches with
  | [branch] => return (← inner branch true).nullableIf nullable
  | _ =>
    let scan ← scanBranches env.schemas branches
    scan.conflicts.forM addConflict
    match branches with
    | [] => fail (.fault .noElement)
    | first :: rest =>
      let head ← inner first true
      let extensible ←
        if head.exposesShape then
          monadLift (allObjectLike env.schemas branches)
        else pure false
      let merged ← mergeBranches env inner ⟨head, extensible⟩ (rest.zip scan.overridden.tail)
      let e := merged.result
      let e :=
        if scan.conflicts.isEmpty then e
        else e.andThen "describe"
          [.literal (.text ("allOf composition conflict: " ++ join "; " scan.conflicts))]
      return e.nullableIf nullable

end SchemaForge.Compile
