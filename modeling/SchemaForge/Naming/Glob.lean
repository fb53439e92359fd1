/-!
# Glob patterns

A glob stands for a set of texts: `*` for any text, `?` for any character, `[...]` for a character
of a class, and every other character for itself. A class lists characters and ranges, is negated
by a leading `!`, and may hold `]` as its first character. A bracket that is never closed stands for
itself.

A range whose ends are the wrong way round is dropped together with its ends, so that `[z-a]`
matches nothing and `[!z-a]` matches any character.

* `Glob.parse` reads a pattern, and `Glob.accepts` decides whether a text is in its set.
-/

namespace SchemaForge

/-- One part of a character class. -/
inductive ClassItem where
  | char (c : Char)
  | range (low high : Char)
deriving DecidableEq, Repr

namespace ClassItem

def accepts (item : ClassItem) (c : Char) : Bool :=
  match item with
  | .char d => c == d
  | .range low high => low.toNat ≤ c.toNat && c.toNat ≤ high.toNat

end ClassItem

/-- One part of a glob. -/
inductive GlobPart where
  /-- Any text. -/
  | star
  /-- Any character. -/
  | any
  /-- A character of a class, or one outside it. -/
  | oneOf (negated : Bool) (items : List ClassItem)
  | char (c : Char)
deriving DecidableEq, Repr

/-- A glob, as the sequence of its parts. -/
abbrev Glob := List GlobPart

namespace Glob

/-! ## Classes

The text between the brackets is cut into chunks at the hyphens that make ranges: such a hyphen has
a character before it that is not itself the end of a range, and one after it. -/

/-- A character of a class text: itself, or the hyphen of a range. -/
inductive ClassToken where
  | char (c : Char)
  | hyphen
deriving DecidableEq, Repr

/--
Cuts a class text at its range hyphens. `skip` counts the characters that cannot be such a hyphen:
the first one of the text, and after a hyphen the end of its range and the character after that.
-/
def chunks (skip : Nat) (chunk : List Char) : List Char → List (List Char)
  | [] => [chunk]
  | c :: cs =>
    match skip with
    | n + 1 => chunks n (chunk ++ [c]) cs
    | 0 => if c == '-' then chunk :: chunks 2 [] cs else chunks 0 (chunk ++ [c]) cs

/-- A hyphen that ends the text stands for itself. -/
def closeChunks : List (List Char) → List (List Char)
  | [] => []
  | [a, []] => [a ++ ['-']]
  | a :: rest => a :: closeChunks rest

/-- Drops, from the last to the first, the ranges whose ends are the wrong way round. -/
def dropEmptyRanges : List (List Char) → List (List Char)
  | [] => []
  | a :: rest =>
    match dropEmptyRanges rest with
    | [] => [a]
    | b :: more =>
      match a.getLast?, b.head? with
      | some x, some y => if y.toNat < x.toNat then (a.dropLast ++ b.tail) :: more else a :: b :: more
      | _, _ => a :: b :: more

/-- The chunks with range hyphens between them. -/
def joinChunks : List (List Char) → List ClassToken
  | [] => []
  | [a] => a.map .char
  | a :: rest => a.map .char ++ .hyphen :: joinChunks rest

/-- The characters and ranges of a class; a hyphen with nothing before it stands for itself. -/
def classItems : List ClassToken → List ClassItem
  | [] => []
  | .char a :: .hyphen :: .char b :: rest => .range a b :: classItems rest
  | .char a :: rest => .char a :: classItems rest
  | .hyphen :: rest => .char '-' :: classItems rest

/-- The part that a class text stands for. -/
def classPart (body : List Char) : GlobPart :=
  let skip := if body.head? == some '!' then 2 else 1
  let tokens :=
    if body.contains '-' then joinChunks (dropEmptyRanges (closeChunks (chunks skip [] body)))
    else body.map .char
  match tokens with
  | [] => .oneOf false []
  | [.char '!'] => .any
  | .char '!' :: rest => .oneOf true (classItems rest)
  | tokens => .oneOf false (classItems tokens)

/-- The characters up to the closing bracket, and what follows it. -/
def untilBracket : List Char → Option (List Char × List Char)
  | [] => none
  | c :: cs =>
    if c == ']' then some ([], cs) else (untilBracket cs).map fun (body, rest) => (c :: body, rest)

/-- A class text, after its opening bracket; a `]` that comes first belongs to the class. -/
def readClass (cs : List Char) : Option (List Char × List Char) :=
  match cs with
  | '!' :: ']' :: rest => (untilBracket rest).map fun (body, tail) => ('!' :: ']' :: body, tail)
  | '!' :: rest => (untilBracket rest).map fun (body, tail) => ('!' :: body, tail)
  | ']' :: rest => (untilBracket rest).map fun (body, tail) => (']' :: body, tail)
  | _ => untilBracket cs

/-! ## Patterns -/

/-- Reads a pattern; the bound on the number of steps is the length of the pattern. -/
def parseParts : Nat → List Char → Glob
  | 0, _ => []
  | _ + 1, [] => []
  | fuel + 1, c :: cs =>
    if c == '*' then .star :: parseParts fuel cs
    else if c == '?' then .any :: parseParts fuel cs
    else if c == '[' then
      match readClass cs with
      | some (body, rest) => classPart body :: parseParts fuel rest
      | none => .char '[' :: parseParts fuel cs
    else .char c :: parseParts fuel cs

/-- The glob that a pattern denotes. -/
def parse (pattern : List Char) : Glob := parseParts pattern.length pattern

/-- Whether a part other than `*` accepts a character. -/
def acceptsChar (part : GlobPart) (c : Char) : Bool :=
  match part with
  | .star => true
  | .any => true
  | .oneOf negated items => items.any (·.accepts c) != negated
  | .char d => c == d

/-- Whether a part accepts some beginning of a text and `rest` accepts what follows it. -/
def acceptsStar (rest : List Char → Bool) : List Char → Bool
  | [] => rest []
  | c :: cs => rest (c :: cs) || acceptsStar rest cs

/-- Whether a whole text is in the set of a glob. -/
def accepts : Glob → List Char → Bool
  | [], cs => cs.isEmpty
  | .star :: parts, cs => acceptsStar (accepts parts) cs
  | _ :: _, [] => false
  | part :: parts, c :: cs => acceptsChar part c && accepts parts cs

end Glob

end SchemaForge
