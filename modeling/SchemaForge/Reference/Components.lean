/-!
# Components

The names that reach each other form a component. One depth-first search finds all components, each
of them after those it refers to.

A name that was met stays on a stack until its component is complete. The search knows, for each name
on its way, the earliest place that this name is seen to reach among those on the stack: its low
point. If this is the place of the name itself when all its targets were followed, then the name was
the first of its component to be met, and the component is what stands on the stack down to it.

The way is kept as a list of frames, so a long chain of references takes no deeper recursion than a
short one. Every step follows one edge or leaves one name, which bounds the number of steps.
-/

namespace SchemaForge.Reference

/-- The names that some names are connected to. -/
abbrev Adjacency := List (String × List String)

/-- The names that a name is connected to. -/
def Adjacency.of (a : Adjacency) (name : String) : List String := (a.lookup name).getD []

/-- A name on the way of the search. -/
structure Frame where
  name : String
  /-- The earliest place that the name is seen to reach. -/
  low : Nat
  /-- The targets that are still to be followed. -/
  pending : List String

/-- Lowers the low point of the innermost frame. -/
def lowered (low : Nat) : List Frame → List Frame
  | [] => []
  | f :: way => { f with low := min f.low low } :: way

/-- A search for components. -/
structure Search where
  /-- The names met so far, in order; where a name stands here is its place. -/
  met : List String := []
  /-- The names whose components are not complete, the last met first. -/
  stack : List String := []
  /-- The names whose targets are being followed, the innermost first. -/
  way : List Frame := []
  /-- The complete components. -/
  components : List (List String) := []

namespace Search

/-- Meets a name. -/
def enter (edges : String → List String) (s : Search) (name : String) : Search :=
  { s with
    met := s.met ++ [name]
    stack := name :: s.stack
    way := ⟨name, s.met.length, edges name⟩ :: s.way }

/-- Follows an edge from the innermost frame, which then is `f`. -/
def follow (edges : String → List String) (s : Search) (f : Frame) (way : List Frame)
    (target : String) : Search :=
  if s.met.contains target then
    if s.stack.contains target then
      { s with way := lowered (s.met.idxOf target) (f :: way) }
    else { s with way := f :: way }
  else enter edges { s with way := f :: way } target

/-- Takes a component off the stack, down to its first name. -/
def complete (names : List String) (s : Search) (first : String) : Search :=
  let members := s.stack.takeWhile (· != first) ++ [first]
  { s with
    stack := (s.stack.dropWhile (· != first)).tail
    components := s.components ++ [names.filter members.contains] }

/-- Leaves the innermost name, all of whose targets were followed. -/
def leave (names : List String) (s : Search) (f : Frame) (way : List Frame) : Search :=
  let outer := { s with way := lowered f.low way }
  if f.low == s.met.idxOf f.name then outer.complete names f.name else outer

def step (edges : String → List String) (names : List String) (s : Search) : Search :=
  match s.way with
  | [] => s
  | f :: way =>
    match f.pending with
    | [] => s.leave names f way
    | target :: pending => s.follow edges { f with pending := pending } way target

/-- Takes steps until the way is at its end; `fuel` bounds their number. -/
def run (edges : String → List String) (names : List String) : Nat → Search → Search
  | 0, s => s
  | fuel + 1, s => if s.way.isEmpty then s else run edges names fuel (s.step edges names)

/-- The number of steps it takes to follow all edges of some names and to leave these names. -/
def steps (edges : String → List String) : List String → Nat
  | [] => 0
  | n :: names => (edges n).length + 1 + steps edges names

/-- Searches from a name unless it was met. -/
def visit (edges : String → List String) (names : List String) (s : Search) (root : String) :
    Search :=
  if s.met.contains root then s else run edges names (steps edges names) (s.enter edges root)

end Search

/-- The components of some names: dependencies before dependents, and the members of each in the order
of the names. -/
def components (edges : String → List String) (names : List String) : List (List String) :=
  (names.foldl (Search.visit edges names) {}).components

end SchemaForge.Reference
