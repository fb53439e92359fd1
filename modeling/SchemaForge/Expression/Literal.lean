import SchemaForge.Document.Display
import SchemaForge.Naming.Identifier

/-!
# Literals of the generated language

Texts as string literals, values as literals, regular expressions between slashes, and property
names as keys and accesses. A name that has the form of an identifier stands without quotes.
-/

namespace SchemaForge.Literal

open Text Naming

/-- A text as a string literal. -/
def string (s : String) : String := Json.quote false s

/-- A value as a literal; a double that is whole is written without a point. -/
def value : Value → Except Fault String
  | .float x =>
    match x.toInt? with
    | some n => .ok (intText n)
    | none => .ok (Json.decimals.write x)
  | v => Json.write Json.literal v

/-! ## Regular expressions -/

/--
A regular expression for use between slashes: escapes are kept as they are, and bare slashes and
line breaks, which would end the literal, become escapes.
-/
def regexSource : List Char → List Char
  | [] => []
  | ['\\'] => ['\\']
  | '\\' :: c :: cs => '\\' :: c :: regexSource cs
  | c :: cs =>
    if c == '/' then '\\' :: '/' :: regexSource cs
    else if c == '\n' then '\\' :: 'n' :: regexSource cs
    else if c == '\r' then '\\' :: 'r' :: regexSource cs
    else c :: regexSource cs

def regex (pattern : String) : String := String.ofList (regexSource pattern.toList)

/-- The same for a pattern that comes in pieces, each of which counts as one character. -/
def regexPieces : List String → List String
  | [] => []
  | ["\\"] => ["\\"]
  | p :: q :: ps =>
    if p == "\\" then p :: q :: regexPieces ps else piece p :: regexPieces (q :: ps)
  | [p] => [piece p]
where
  piece (p : String) : String :=
    if p == "/" then "\\/" else if p == "\n" then "\\n" else if p == "\r" then "\\r" else p

/-- A pattern that may be any value: a text, or a list of texts or object whose names are texts. -/
def regexOf (pattern : Value) : Except Fault String :=
  match pattern with
  | .text s => .ok (regex s)
  | v => do
    let items ← v.walk
    let pieces ← items.mapM Value.asText
    return join "" (regexPieces pieces)

/-! ## Property names -/

def isNameStart (c : Char) : Bool := c.isAlpha || c == '_' || c == '$'

def isNameChar (c : Char) : Bool := c.isAlphanum || c == '_' || c == '$'

/-- A name that may stand without quotes. -/
def isPlainName : List Char → Bool
  | [] => false
  | c :: cs => isNameStart c && cs.all isNameChar

def isUnquoted (name : String) : Bool := upToLineEnd isPlainName name.toList

/-- A property name as a key of an object literal. -/
def key (name : String) : String := if isUnquoted name then name else string name

/-- The property of a target, read by its name. -/
def access (target name : String) : String :=
  if isUnquoted name then target ++ "." ++ name else target ++ "[" ++ string name ++ "]"

/-- A key made from a scalar; only texts are property names. -/
def keyOf : Scalar → Except Fault String
  | .text name => .ok (key name)
  | _ => .error .wrongKind

/-- An access made from a scalar; only texts are property names. -/
def accessOf (target : String) : Scalar → Except Fault String
  | .text name => .ok (access target name)
  | _ => .error .wrongKind

end SchemaForge.Literal
