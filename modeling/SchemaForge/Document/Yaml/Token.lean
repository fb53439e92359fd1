/-!
# Tokens of a YAML text

Indentation is made explicit: block lists and block maps start with a token of their own and end
with `blockEnd`. A key without an indicator is known for one only when its colon is met; until then
a `slot` keeps its place.
-/

namespace SchemaForge.Yaml

inductive Token where
  | scalar (text : String) (plain : Bool)
  | anchor (name : String)
  | reference (name : String)
  /-- The start of a block list or block map. -/
  | listStart
  | mapStart
  | blockEnd
  /-- A dash before an item. -/
  | item
  | key
  | value
  /-- The brackets and commas of flow collections. -/
  | openList
  | closeList
  | openMap
  | closeMap
  | comma
  | documentStart
  | documentEnd
  /-- A place that may turn out to start a key. -/
  | slot (number : Nat)
deriving DecidableEq, Repr

namespace Token

/-- Puts tokens, which like the list stand in reverse order, in the place of a slot. -/
def fill (number : Nat) (tokens : List Token) : List Token → List Token
  | [] => []
  | t :: ts => if t == .slot number then tokens ++ ts else t :: fill number tokens ts

/-- Tokens without the slots that were not filled. -/
def settled (tokens : List Token) : List Token :=
  tokens.filter fun t =>
    match t with
    | .slot _ => false
    | _ => true

end Token

end SchemaForge.Yaml
