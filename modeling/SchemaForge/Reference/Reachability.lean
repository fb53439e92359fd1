/-!
# Reachability

The names that can be reached along edges from some names. The search keeps a list of names still to
be explored; every name enters it once, so the number of names bounds its steps.
-/

namespace SchemaForge.Reference

/-- The names not yet seen, each once. -/
def unseen (seen : List String) : List String → List String
  | [] => []
  | n :: ns => if seen.contains n then unseen seen ns else n :: unseen (n :: seen) ns

/-- Explores the pending names; `seen` holds all names met so far. -/
def explore (edges : String → List String) : Nat → List String → List String → List String
  | 0, _, seen => seen
  | _ + 1, [], seen => seen
  | fuel + 1, n :: pending, seen =>
    let new := unseen seen (edges n)
    explore edges fuel (pending ++ new) (seen ++ new)

/-- The given names and all that can be reached from them, among `size` names with edges. -/
def reachable (edges : String → List String) (size : Nat) (start : List String) : List String :=
  let start := unseen [] start
  explore edges (start.length + size + 1) start start

end SchemaForge.Reference
