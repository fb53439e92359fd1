import SchemaForge.Document.Value
import SchemaForge.Naming.Glob

/-!
# Stripping prefixes from schema names

A document's schema names may share a prefix that the generated names leave out. The prefix is given
literally or as a glob; a glob strips the longest beginning of the name that it accepts. Of several
patterns the first that matches decides, and a name is never stripped to nothing.
-/

namespace SchemaForge.Naming

open Text

/-- A pattern with one of the characters `*?[]{}!` is a glob. -/
def isGlob (pattern : List Char) : Bool :=
  pattern.any fun c => "*?[]\x7b\x7d!".toList.contains c

/-- The length of the longest non-empty beginning of a text that a glob accepts. -/
def longestAccepted (glob : Glob) (text : List Char) : Option Nat :=
  ((List.range text.length).map (· + 1)).reverse.find? fun n => glob.accepts (text.take n)

/-- What is left of a text after one pattern; none if the pattern does not match. -/
def stripOne (pattern text : List Char) : Option (List Char) :=
  if isGlob pattern then
    (longestAccepted (Glob.parse pattern) text).map fun n => text.drop n
  else if !pattern.isEmpty && startsWith pattern text then some (text.drop pattern.length)
  else none

/-- What is left of a text after the first pattern that matches. -/
def stripChars (patterns : List (List Char)) (text : List Char) : List Char :=
  match patterns.findSome? (stripOne · text) with
  | none => text
  | some rest => if rest.isEmpty then text else rest

/-! ## Patterns as values -/

/-- The pattern option as it is given: nothing, a text, or several values. -/
inductive StripOption where
  | none
  | one (pattern : String)
  | many (patterns : List Value)

namespace StripOption

/-- The patterns an option holds; an empty text counts as none. -/
def patterns : StripOption → List Value
  | .none => []
  | .one p => if p == "" then [] else [.text p]
  | .many ps => ps

/-- Reads an option: null, a text, or anything that can be walked over. -/
def ofValue : Value → Except Fault StripOption
  | .null => .ok .none
  | .text s => .ok (.one s)
  | v => v.walk.map .many

/-- The option as a value. -/
def toValue : StripOption → Value
  | .none => .null
  | .one p => .text p
  | .many ps => .list ps

end StripOption

/--
Strips a name by patterns that may be any values.

Patterns are tried in order, so one that is not a text is a fault only if none before it matches.
-/
def stripValues : List Value → List Char → Except Fault (List Char)
  | [], text => .ok text
  | .text p :: rest, text =>
    match stripOne p.toList text with
    | some left => .ok (if left.isEmpty then text else left)
    | none => stripValues rest text
  | _ :: _, _ => .error .wrongKind

/-- For patterns that are all texts, stripping by values is stripping by texts. -/
theorem stripValues_texts (ps : List String) (text : List Char) :
    stripValues (ps.map Value.text) text = .ok (stripChars (ps.map String.toList) text) := by
  induction ps with
  | nil => rfl
  | cons p ps ih =>
    simp only [List.map_cons, stripValues, stripChars, List.findSome?_cons]
    cases h : stripOne p.toList text with
    | some left => rfl
    | none => simpa [stripChars] using ih

/-- A schema name without the prefix that an option names. -/
def strip (option : StripOption) (name : String) : Except Fault String :=
  (stripValues option.patterns name.toList).map String.ofList

end SchemaForge.Naming
