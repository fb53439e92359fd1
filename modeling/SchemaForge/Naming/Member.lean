import SchemaForge.Document.Display
import SchemaForge.Naming.Allocation
import SchemaForge.Naming.Identifier
import SchemaForge.Text.Blank
import SchemaForge.Text.Digits

/-!
# Enum members

How the values of an enum become member names. A leading sign of a text is taken for a sort
direction and moves to the end, as `Asc` or `Desc`. Texts are title-cased word by word; numbers keep
their digits after `Value`.
-/

namespace SchemaForge.Naming

open Text

/-- The text after its sign, and the suffix for the sign. -/
def splitSign : List Char → List Char × String
  | '+' :: rest => (rest, "Asc")
  | '-' :: rest => (rest, "Desc")
  | cs => (cs, "")

/-- A word with its first letter in upper case and the others in lower case. -/
def titleWord : List Char → List Char
  | [] => []
  | c :: cs => c.toUpper :: cs.map Char.toLower

/-- The member name that a text asks for. -/
def textCandidate (raw : String) : String :=
  if raw == "" then "Empty"
  else
    let (body, suffix) := splitSign raw.toList
    let base := (asciiWords body).flatMap titleWord
    let base :=
      match base with
      | [] => if suffix == "" then "Value".toList else []
      | c :: _ => if c.isDigit then "Value".toList ++ base else base
    String.ofList base ++ suffix

/-- Runs of other characters than ASCII letters and digits as one low line, none at the ends. -/
def lowLined (cs : List Char) : List Char :=
  trim (· == '_') (collapse (fun c => !c.isAlphanum) '_' cs)

/-- The member name that the text of a number asks for. -/
def numeral (body : List Char) (suffix : String) : String :=
  "Value" ++ String.ofList (lowLined body) ++ suffix

/-- The member name that a text taken for a number asks for. -/
def textNumeral (raw : String) : String :=
  let (body, suffix) := splitSign (trim isBlank raw.toList)
  numeral body suffix

/-- The member name that a whole number asks for. -/
def intNumeral (n : Int) : String :=
  numeral (if n < 0 then "Neg" ++ intText (-n) else intText n).toList ""

/-- The member name that a double asks for. -/
def doubleNumeral (x : Double) : String :=
  let negative := (Quantity.ofDouble x).less (.ofInt 0)
  numeral (if negative then "Neg" ++ Scalar.decimals.write x.negate else Scalar.decimals.write x).toList ""

/-- The member name that a number, a truth value or a text taken for a number asks for. -/
def numericCandidate : Value → Except Fault String
  | .text raw => .ok (textNumeral raw)
  | .int n => .ok (intNumeral n)
  | .float x => .ok (doubleNumeral x)
  | .bool b => .ok (numeral (Scalar.shown (.bool b)).toList "")
  | _ => .error .wrongKind

/-- Digits, and perhaps a point and digits. -/
def isDecimalText (cs : List Char) : Bool :=
  match cs.span isDigit with
  | ([], _) => false
  | (_, []) => true
  | (_, '.' :: rest) => !rest.isEmpty && rest.all isDigit
  | _ => false

/-- Texts that write a number after any signs. -/
def isNumericText (s : String) : Bool :=
  upToLineEnd isDecimalText (s.toList.dropWhile fun c => c == '+' || c == '-')

/-- Numbers, and texts that write one. Truth values are no numbers. -/
def isNumeric : Value → Bool
  | .int _ => true
  | .float _ => true
  | .text s => isNumericText s
  | _ => false

/-- The member name that an enum value asks for. -/
def memberCandidate : Value → String
  | .int n => intNumeral n
  | .float x => doubleNumeral x
  | .bool b => textCandidate (Json.boolText b)
  | .text s => if isNumericText s then textNumeral s else textCandidate s
  | v => textCandidate v.display

end SchemaForge.Naming
