import SchemaForge.Pattern.Checker
import SchemaForge.Text.Words

/-!
# Two spellings of regular expressions

The generated language spells named groups `(?<name>...)`, references to them `\k<name>` and
property classes `\p{...}`; the checker knows the first two with a `P` and takes `\w` for any
property class. `portable` goes from the one spelling to the other; its result is only checked and
never printed.
-/

namespace SchemaForge.Pattern

open Text

/-- Named groups: a parenthesis after a backslash does not open one, and neither `(?<=` nor `(?<!`
is one. `previous` is the character before the text. -/
def nameGroups (previous : Option Char) : List Char → List Char
  | [] => []
  | '(' :: '?' :: '<' :: rest =>
    if previous != some '\\' && rest.head? != some '=' && rest.head? != some '!' then
      '(' :: '?' :: 'P' :: '<' :: nameGroups (some '<') rest
    else '(' :: '?' :: '<' :: nameGroups (some '<') rest
  | c :: rest => c :: nameGroups (some c) rest

/-- A name in angle brackets, and what follows it. -/
def angleName? : List Char → Option (List Char × List Char)
  | '<' :: rest =>
    match rest.span isWordChar with
    | ([], _) => none
    | (name, '>' :: tail) => some (name, tail)
    | _ => none
  | _ => none

/-- References to named groups. -/
def nameReferences : Nat → List Char → List Char
  | 0, cs => cs
  | _, [] => []
  | fuel + 1, '\\' :: 'k' :: rest =>
    match angleName? rest with
    | some (name, tail) => "(?P=".toList ++ name ++ ')' :: nameReferences fuel tail
    | none => '\\' :: nameReferences fuel ('k' :: rest)
  | fuel + 1, c :: rest => c :: nameReferences fuel rest

/-- What follows a text in braces. -/
def afterBraces? : List Char → Option (List Char)
  | '{' :: rest =>
    match rest.dropWhile (· != '}') with
    | _ :: tail => some tail
    | [] => none
  | _ => none

/-- Property classes. -/
def propertyClasses : Nat → List Char → List Char
  | 0, cs => cs
  | _, [] => []
  | fuel + 1, '\\' :: c :: rest =>
    if c == 'p' || c == 'P' then
      match afterBraces? rest with
      | some tail => '\\' :: 'w' :: propertyClasses fuel tail
      | none => '\\' :: propertyClasses fuel (c :: rest)
    else '\\' :: propertyClasses fuel (c :: rest)
  | fuel + 1, c :: rest => c :: propertyClasses fuel rest

/-- A pattern in the spelling that the checker knows. -/
def portable (pattern : List Char) : List Char :=
  let named := nameGroups none pattern
  let referenced := nameReferences named.length named
  propertyClasses referenced.length referenced

end SchemaForge.Pattern
