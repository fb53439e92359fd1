import SchemaForge.Document.Json.Writer

/-!
# Allocating names

Names that have to be distinct are allocated one after another: a name that is taken gets the
smallest number from two on that makes it free. Among `n` taken names at most `n` numbers are taken,
so the search is over after `n + 1` steps.
-/

namespace SchemaForge.Naming

/-- A candidate with a number after it. -/
def numbered (candidate : String) (k : Nat) : String :=
  candidate ++ String.ofList (Nat.toDigits 10 k)

/-- The first free numbered candidate from `k` on, among the next `steps`. -/
def firstFree (candidate : String) (used : List String) (k : Nat) : Nat → String
  | 0 => numbered candidate k
  | steps + 1 =>
    if used.contains (numbered candidate k) then firstFree candidate used (k + 1) steps
    else numbered candidate k

/-- The name allocated for a candidate. -/
def freeName (candidate : String) (used : List String) : String :=
  if used.contains candidate then firstFree candidate used 2 used.length else candidate

/-- Allocates a name and adds it to those taken. Without a register every candidate is free. -/
def allocate (candidate : String) (used : Option (List String)) : String × Option (List String) :=
  match used with
  | none => (candidate, none)
  | some taken =>
    let name := freeName candidate taken
    (name, some (taken ++ [name]))

end SchemaForge.Naming
