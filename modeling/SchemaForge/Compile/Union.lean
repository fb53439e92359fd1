import SchemaForge.Compile.Branches
import SchemaForge.Compile.Objects
import SchemaForge.Schema.Form

/-!
# Unions

A union of branches is told apart by a discriminator if every branch requires it, and is a plain
union otherwise. A discriminator mapping puts the branches in the order of its targets and adds
those that it names beyond the branches. A union without branches admits nothing.
-/

namespace SchemaForge.Compile

open Text Schema

/-! ## Discriminator mappings -/

/-- Whether a reference is the target of a mapping, or ends in it. -/
def refMatches (ref : String) (target : Value) : Except Fault Bool :=
  match target with
  | .text t => .ok (ref == t || endsWith t.toList ref.toList)
  | _ => .error .wrongKind

/-- The first branch, with its position, whose reference matches a target. -/
def matchingBranch (target : Value) (position : Nat) :
    List Value → Except Fault (Option (Nat × Value))
  | [] => .ok none
  | branch :: rest => do
    let fields ← branch.fields
    match fields.value "$ref" with
    | .text ref =>
      if ← refMatches ref target then return some (position, branch)
      else matchingBranch target (position + 1) rest
    | _ => matchingBranch target (position + 1) rest

/-- A branch in mapping order, with the position it was found at; added branches have none.

The position stands for the identity of the branch: the places of a list count as different objects,
also where they are equal. This leaves out documents in which an alias puts one object into two
places of the list; by identity the second place would be dropped, by position both are kept. -/
abbrev Ordered := List (Option Nat × Value)

/-- Puts the branch of one target behind the others, unless it is there or an equal one is. (A branch
with an undefined number in it equals no branch, itself included, so only its position tells that it
is there.) -/
def orderTarget (branches : List Value) (ordered : Ordered) (target : Value) :
    Except Fault Ordered := do
  let candidate :=
    match ← matchingBranch target 0 branches with
    | some (position, branch) => (some position, branch)
    | none => (none, .object [(.text "$ref", target)])
  if ordered.any fun o => o.1.isSome && o.1 == candidate.1 || o.2.same candidate.2 then
    return ordered
  else return ordered ++ [candidate]

/-- The branches from a position on that have not been put in order. Branches go by their positions
here, so an equal branch in another place is left over. -/
def leftOver (ordered : Ordered) (position : Nat) : List Value → List Value
  | [] => []
  | branch :: rest =>
    if ordered.any fun o => o.1 == some position then leftOver ordered (position + 1) rest
    else branch :: leftOver ordered (position + 1) rest

/-- The branches in the order of a mapping, those that it does not name last. Each place of the list
is kept once, also if an alias of the document puts the same object into another place. -/
def orderByMapping (mapping : Value) (branches : List Value) : Except Fault (List Value) := do
  let targets ← mapping.fields
  let ordered ← (targets.map (·.2)).foldlM (orderTarget branches) []
  return ordered.map (·.2) ++ leftOver ordered 0 branches

/-! ## Discriminators -/

/-- Whether every branch requires a property, up to the first that does not. -/
def requiredEverywhere (schemas : Fields) (property : Value) : List Value → Except Fault Bool
  | [] => .ok true
  | branch :: rest => do
    let required ← requiredOf schemas branch
    let name ← property.asName
    if required.any (·.same name) then requiredEverywhere schemas property rest
    else return false

/-! ## Unions -/

/-- A union of two branches or more, with or without a discriminator. -/
def unionOf (discriminator : Option Value) (branches : List Expression) : Expression :=
  let branches := Node.array (branches.map Expression.toNode)
  match discriminator with
  | some property => zod "discriminatedUnion" [.literal property, branches]
  | none => zod "union" [branches]

/-- The warning about a discriminator that some branch does not require. -/
def discriminatorWarning (property : Value) (owner : Option String) : String :=
  "Discriminator \"" ++ property.display ++ "\" is not required in all variants of " ++
    Failure.ownerText owner ++ ". Falling back to z.union() instead of z.discriminatedUnion()"

/-- The description of a union that lost its discriminator. -/
def fallbackDescription (property : Value) : String :=
  "Discriminator '" ++ property.display ++ "' is optional in some variants, " ++
    "so z.union() is used instead of z.discriminatedUnion()"

/-- What a union tells its branches apart by. -/
inductive Selector where
  | none
  | property (name : Value)
  /-- A discriminator that cannot be used. -/
  | unusable (name : Value)

/-- The branches in their final order, and what tells them apart. -/
def selectBranches (env : Environment) (branches : List Value) (discriminator mapping : Value) :
    Compile (List Value × Selector) := do
  if discriminator.isSet then
    let branches ← if mapping.isSet then orderByMapping mapping branches else pure branches
    if ← requiredEverywhere env.schemas discriminator branches then
      return (branches, .property discriminator)
    else
      addWarning (discriminatorWarning discriminator (← session).name)
      return (branches, .unusable discriminator)
  else return (branches, .none)

/-- A `oneOf` or `anyOf` composition; `admitting` lets every branch pass other properties. -/
def compileUnion (env : Environment) (inner : Inner) (kind : UnionKind) (branches : List Value)
    (discriminator mapping : Value) (nullable admitting : Bool) : Compile Expression := do
  match branches with
  | [] =>
    let s ← session
    addWarning ("Empty " ++ kind.keyword ++ " in schema " ++ Failure.ownerText s.name ++
      ": no branches to choose from, generating z.never()")
    return (zod "never" []).nullableIf nullable
  | [branch] => return (← inner branch true).nullableIf nullable
  | _ =>
    let (branches, selector) ← selectBranches env branches discriminator mapping
    let compiled ← branches.mapM fun branch => inner branch true
    let compiled := if admitting then compiled.map ensureAdmits else compiled
    let e :=
      match selector with
      | .none => unionOf none compiled
      | .property name => unionOf (some name) compiled
      | .unusable name =>
        (unionOf none compiled).andThen "describe" [.literal (.text (fallbackDescription name))]
    return e.nullableIf nullable

end SchemaForge.Compile
