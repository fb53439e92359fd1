import SchemaForge.Document.Yaml.Lexer
import SchemaForge.Document.Yaml.Resolution
import SchemaForge.Document.Yaml.Tree

/-!
# Reading YAML

YAML texts as documents: tokens, then a tree, then the tree with its references replaced by what they
refer to, then the document. The key `<<` merges the entries of a map, or of several, into the map
where it stands; the map's own entries win over merged ones, and come after them.
-/

namespace SchemaForge.Yaml

/-- Why a text has no document. -/
inductive Trouble where
  /-- The text breaks the rules of the format. -/
  | unreadable
  /-- A scalar has the form of a value that does not exist. -/
  | fault (f : Fault)
deriving DecidableEq, Repr

/-! ## References -/

/-- The trees that names stand for. -/
abbrev Anchors := List (String × Tree)

namespace Tree

mutual

/-- A tree with its references replaced. A name stands for one tree, which comes before all
references to it. -/
def expand (anchors : Anchors) : Tree → Option (Tree × Anchors)
  | .scalar text plain => some (.scalar text plain, anchors)
  | .list items => (expandAll anchors items).map fun (items, a) => (.list items, a)
  | .map entries => (expandEntries anchors entries).map fun (entries, a) => (.map entries, a)
  | .anchored name tree => do
    let (tree, a) ← expand anchors tree
    if (a.lookup name).isSome then none else some (tree, (name, tree) :: a)
  | .reference name => (anchors.lookup name).map fun tree => (tree, anchors)

def expandAll (anchors : Anchors) : List Tree → Option (List Tree × Anchors)
  | [] => some ([], anchors)
  | t :: ts => do
    let (t, a) ← expand anchors t
    let (ts, a) ← expandAll a ts
    return (t :: ts, a)

def expandEntries (anchors : Anchors) : List (Tree × Tree) → Option (List (Tree × Tree) × Anchors)
  | [] => some ([], anchors)
  | (key, value) :: rest => do
    let (key, a) ← expand anchors key
    let (value, a) ← expand a value
    let (rest, a) ← expandEntries a rest
    return ((key, value) :: rest, a)

end

/-! ## Documents -/

/-- The entries that a value merges: those of an object, or of several, of which the first win. -/
def mergedFields : Value → Except Trouble Fields
  | .object fields => .ok fields
  | .list items =>
    match items.mapM Value.fields? with
    | some all => .ok all.reverse.flatten
    | none => .error .unreadable
  | _ => .error .unreadable

/-- The entries of a map: those merged into it and its own. -/
structure Entries where
  merged : Fields := []
  own : Fields := []

/-- The fields of a map. -/
def Entries.fields (e : Entries) : Fields := Fields.ofPairs (e.merged ++ e.own)

/-- A name for a field; lists and objects are none. -/
def keyOf : Value → Except Trouble Scalar
  | .scalar s => .ok s
  | _ => .error .unreadable

mutual

/-- The document that a tree without references denotes. -/
def toValue : Tree → Except Trouble Value
  | .scalar text false => .ok (.text text)
  | .scalar text true =>
    match resolve? text with
    | some (.ok s) => .ok (.scalar s)
    | some (.error f) => .error (.fault f)
    | none => .error .unreadable
  | .list items => do return .list (← toValues items)
  | .map entries => do return .object (← toEntries entries).fields
  | .anchored _ tree => toValue tree
  | .reference _ => .error .unreadable

def toValues : List Tree → Except Trouble (List Value)
  | [] => .ok []
  | t :: ts => do
    let v ← toValue t
    let vs ← toValues ts
    return v :: vs

def toEntries : List (Tree × Tree) → Except Trouble Entries
  | [] => .ok {}
  | (.scalar "<<" true, value) :: rest => do
    let merged ← mergedFields (← toValue value)
    let entries ← toEntries rest
    return { entries with merged := merged ++ entries.merged }
  | (.scalar "=" true, value) :: rest => do
    let value ← toValue value
    let entries ← toEntries rest
    return { entries with own := (.text "=", value) :: entries.own }
  | (key, value) :: rest => do
    let key ← keyOf (← toValue key)
    let value ← toValue value
    let entries ← toEntries rest
    return { entries with own := (key, value) :: entries.own }

end

end Tree

/-- The document that a YAML text denotes; an empty text denotes null. -/
def parse (text : String) : Except Trouble Value :=
  match (tokens? text.toList).bind Tree.ofTokens? with
  | none => .error .unreadable
  | some none => .ok .null
  | some (some tree) =>
    match tree.expand [] with
    | some (tree, _) => tree.toValue
    | none => .error .unreadable

end SchemaForge.Yaml
