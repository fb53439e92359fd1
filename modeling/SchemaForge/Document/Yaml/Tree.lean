import SchemaForge.Document.Yaml.Token

/-!
# Trees of a YAML text

The tree that tokens describe: scalars, lists and maps, some of them anchored by a name, and
references to those names. A value that is left out is an empty plain scalar.

The readers take the tokens that are left and give back what they did not use. `fuel` bounds their
steps; every step uses a token or turns to another reader that does.
-/

namespace SchemaForge.Yaml

inductive Tree where
  | scalar (text : String) (plain : Bool)
  | list (items : List Tree)
  | map (entries : List (Tree × Tree))
  | anchored (name : String) (tree : Tree)
  | reference (name : String)

instance : Inhabited Tree := ⟨.scalar "" true⟩

namespace Tree

/-- A value that is left out. -/
def empty : Tree := .scalar "" true

/-- Whether one of some tokens comes next. -/
def nextIn (choices : List Token) (ts : List Token) : Bool :=
  match ts with
  | [] => false
  | t :: _ => choices.contains t

/-- Whether the content of a node comes next. -/
def hasContent (block dashes : Bool) : List Token → Bool
  | .scalar _ _ :: _ => true
  | .openList :: _ => true
  | .openMap :: _ => true
  | .item :: _ => dashes
  | .listStart :: _ => block
  | .mapStart :: _ => block
  | _ => false

/-- What follows a comma; before the first entry there is none. -/
def afterComma (first : Bool) (ts : List Token) : Option (List Token) :=
  if first then some ts
  else
    match ts with
    | .comma :: ts => some ts
    | _ => none

mutual

/-- A node. Only in a block context block collections may follow, and only as the key or value of a
block map a list whose dashes stand in the column of the map. -/
def readNode (block dashes : Bool) : Nat → List Token → Option (Tree × List Token)
  | 0, _ => none
  | _ + 1, .reference name :: ts => some (.reference name, ts)
  | fuel + 1, .anchor name :: ts =>
    if hasContent block dashes ts then
      (readContent block dashes fuel ts).map fun (tree, ts) => (.anchored name tree, ts)
    else some (.anchored name empty, ts)
  | fuel + 1, ts => readContent block dashes fuel ts

/-- A node without its anchor. -/
def readContent (block dashes : Bool) : Nat → List Token → Option (Tree × List Token)
  | 0, _ => none
  | fuel + 1, ts =>
    match ts with
    | .scalar text plain :: rest => some (.scalar text plain, rest)
    | .openList :: rest => (readFlowItems true fuel rest).map fun (l, ts) => (.list l, ts)
    | .openMap :: rest => (readFlowEntries true fuel rest).map fun (l, ts) => (.map l, ts)
    | .item :: _ =>
      if dashes then (readDashes fuel ts).map fun (l, ts) => (.list l, ts) else none
    | .listStart :: rest =>
      if block then (readItems fuel rest).map fun (l, ts) => (.list l, ts) else none
    | .mapStart :: rest =>
      if block then (readEntries fuel rest).map fun (l, ts) => (.map l, ts) else none
    | _ => none

/-- The items of a block list, up to its end. -/
def readItems : Nat → List Token → Option (List Tree × List Token)
  | 0, _ => none
  | _ + 1, .blockEnd :: ts => some ([], ts)
  | fuel + 1, .item :: ts =>
    let item :=
      if nextIn [.item, .blockEnd] ts then some (empty, ts) else readNode true false fuel ts
    match item with
    | some (tree, ts) => (readItems fuel ts).map fun (more, ts) => (tree :: more, ts)
    | none => none
  | _, _ => none

/-- The items of a list that stands in the column of the map around it. -/
def readDashes : Nat → List Token → Option (List Tree × List Token)
  | 0, _ => none
  | fuel + 1, .item :: ts =>
    let item :=
      if nextIn [.item, .key, .value, .blockEnd] ts then some (empty, ts)
      else readNode true false fuel ts
    match item with
    | some (tree, ts) => (readDashes fuel ts).map fun (more, ts) => (tree :: more, ts)
    | none => none
  | _ + 1, ts => some ([], ts)

/-- The entries of a block map, up to its end. -/
def readEntries : Nat → List Token → Option (List (Tree × Tree) × List Token)
  | 0, _ => none
  | _ + 1, .blockEnd :: ts => some ([], ts)
  | fuel + 1, ts =>
    match readBlockKey fuel ts with
    | none => none
    | some (key, ts) =>
      match readBlockValue fuel ts with
      | none => none
      | some (value, ts) => (readEntries fuel ts).map fun (more, ts) => ((key, value) :: more, ts)

/-- The key of an entry of a block map. -/
def readBlockKey : Nat → List Token → Option (Tree × List Token)
  | 0, _ => none
  | fuel + 1, .key :: ts =>
    if nextIn [.key, .value, .blockEnd] ts then some (empty, ts) else readNode true true fuel ts
  | _, _ => none

/-- The value of an entry of a block map. -/
def readBlockValue : Nat → List Token → Option (Tree × List Token)
  | 0, _ => none
  | fuel + 1, .value :: ts =>
    if nextIn [.key, .value, .blockEnd] ts then some (empty, ts) else readNode true true fuel ts
  | _ + 1, ts => some (empty, ts)

/-- The items of a flow list, up to its bracket; commas stand between them. -/
def readFlowItems (first : Bool) : Nat → List Token → Option (List Tree × List Token)
  | 0, _ => none
  | _ + 1, .closeList :: ts => some ([], ts)
  | fuel + 1, ts =>
    match afterComma first ts with
    | none => none
    | some (.closeList :: ts) => some ([], ts)
    | some (.key :: ts) =>
      match readFlowPart [.value, .comma, .closeList] fuel ts with
      | none => none
      | some (key, ts) =>
        match readFlowValue [.comma, .closeList] fuel ts with
        | none => none
        | some (value, ts) =>
          (readFlowItems false fuel ts).map fun (more, ts) => (.map [(key, value)] :: more, ts)
    | some ts =>
      match readNode false false fuel ts with
      | none => none
      | some (tree, ts) => (readFlowItems false fuel ts).map fun (more, ts) => (tree :: more, ts)

/-- The entries of a flow map, up to its bracket; commas stand between them. -/
def readFlowEntries (first : Bool) : Nat → List Token → Option (List (Tree × Tree) × List Token)
  | 0, _ => none
  | _ + 1, .closeMap :: ts => some ([], ts)
  | fuel + 1, ts =>
    match afterComma first ts with
    | none => none
    | some (.closeMap :: ts) => some ([], ts)
    | some (.key :: ts) =>
      match readFlowPart [.value, .comma, .closeMap] fuel ts with
      | none => none
      | some (key, ts) =>
        match readFlowValue [.comma, .closeMap] fuel ts with
        | none => none
        | some (value, ts) =>
          (readFlowEntries false fuel ts).map fun (more, ts) => ((key, value) :: more, ts)
    | some ts =>
      match readNode false false fuel ts with
      | none => none
      | some (key, ts) =>
        (readFlowEntries false fuel ts).map fun (more, ts) => ((key, empty) :: more, ts)

/-- A node between brackets, left out if one of some tokens comes next. -/
def readFlowPart (ends : List Token) : Nat → List Token → Option (Tree × List Token)
  | 0, _ => none
  | fuel + 1, ts => if nextIn ends ts then some (empty, ts) else readNode false false fuel ts

/-- A value between brackets, left out if there is no colon or one of some tokens comes next. -/
def readFlowValue (ends : List Token) : Nat → List Token → Option (Tree × List Token)
  | 0, _ => none
  | fuel + 1, .value :: ts => readFlowPart ends fuel ts
  | _ + 1, ts => some (empty, ts)

end

/-! ## Documents -/

/-- The end of a text: nothing but ends of documents may be left. -/
def atEnd (ts : List Token) : Bool := ts.all (· == .documentEnd)

/-- The node of a document. -/
def readDocument (ts : List Token) : Option Tree :=
  match readNode true false (4 * ts.length + 4) ts with
  | some (tree, rest) => if atEnd rest then some tree else none
  | none => none

/-- The tree of a text with one document; none inside if the text holds no document. -/
def ofTokens? (ts : List Token) : Option (Option Tree) :=
  match ts with
  | [] => some none
  | .documentStart :: ts =>
    if ts.isEmpty || nextIn [.documentEnd] ts then (if atEnd ts then some (some empty) else none)
    else (readDocument ts).map some
  | ts => (readDocument ts).map some

end Tree

end SchemaForge.Yaml
