import SchemaForge.Document.Value
import SchemaForge.Text.Case
import SchemaForge.Text.Search

/-!
# Identifiers

How schema names become identifiers. The words of a name are its runs of ASCII letters and digits;
a constant joins them in camel case, with an optional prefix and suffix, and a type in Pascal case.
A name without any word keeps its characters as a constant and is called `Value` as a type.
-/

namespace SchemaForge.Naming

open Text

/-- The runs of ASCII letters and digits. -/
def asciiWords (cs : List Char) : List (List Char) := words (fun c => !c.isAlphanum) cs

/--
Whether a text has the form of a class of texts, where one line feed at its end is let pass.
-/
def upToLineEnd (p : List Char → Bool) (cs : List Char) : Bool :=
  p cs || (cs.getLast? == some '\n' && p cs.dropLast)

/-- The last segment of a reference, which names the schema it points to. -/
def targetName (ref : String) : String := String.ofList (afterLast '/' ref.toList)

/-- The last segment of a reference; only texts are references. -/
def targetOf : Value → Except Fault String
  | .text ref => .ok (targetName ref)
  | _ => .error .noMember

/-! ## Constants -/

/-- The words of a text in camel case; a text without words only loses its first capital. -/
def camelWords (text : List Char) : List Char :=
  match asciiWords text with
  | [] => lowerFirst text
  | w :: ws => lowerFirst w ++ ws.flatMap upperFirst

/-- Camel case with a prefix and a suffix, either of which may be empty. -/
def camelChars (pre post text : List Char) : List Char :=
  let name := camelWords text
  let name := if pre.isEmpty then name else lowerFirst pre ++ upperFirst name
  if post.isEmpty then name else name ++ upperFirst post

/-- An affix option: not set, or a text. -/
def affix (v : Value) : Except Fault (List Char) :=
  if v.isSet then
    match v with
    | .text s => .ok s.toList
    | .list _ => .error .noMember
    | _ => .error .wrongKind
  else .ok []

/-- The camel-case identifier of a name, with a prefix and a suffix that may be any values. -/
def camelCase (pre post : Value) (name : String) : Except Fault String := do
  let p ← affix pre
  let s ← affix post
  return String.ofList (camelChars p s name.toList)

/-! ## Types -/

/-- A letter followed by letters and digits. -/
def isSimple : List Char → Bool
  | [] => false
  | c :: cs => c.isAlpha && cs.all Char.isAlphanum

/-- The Pascal-case identifier of a text. -/
def pascalChars (text : List Char) : List Char :=
  if upToLineEnd isSimple text then upperFirst text
  else
    match asciiWords text with
    | [] => "Value".toList
    | ws =>
      let name := ws.flatMap upperFirst
      match name with
      | c :: _ => if c.isDigit then 'N' :: name else name
      | [] => name

def pascalCase (name : String) : String := String.ofList (pascalChars name.toList)

end SchemaForge.Naming
