import SchemaForge.Document.Json.Writer
import SchemaForge.Text.Printable

/-!
# Documents in messages

How values are shown inside messages and comments: a text by itself stands as it is, inside a list
or object it is quoted, with single quotes unless it holds some and no double ones.
-/

namespace SchemaForge

open Text

/-- Numbers in messages look as in JSON but for infinities and undefined results. -/
def Scalar.decimals : DecimalStyle where
  positionalBelow := 16
  positionalFrom := -4
  exponentWidth := 2
  infinity := "inf"
  notANumber := "nan"

namespace Text

/-- A character inside a quoted text of a message. -/
def shownChar (quote : Char) (c : Char) : List Char :=
  if c == quote || c == '\\' then ['\\', c]
  else if c == '\n' then ['\\', 'n']
  else if c == '\r' then ['\\', 'r']
  else if c == '\t' then ['\\', 't']
  else if isShown c then [c]
  else if c.toNat < 0x100 then '\\' :: 'x' :: Quoted.hex 2 c.toNat
  else if c.toNat < 0x10000 then '\\' :: 'u' :: Quoted.hex 4 c.toNat
  else '\\' :: 'U' :: Quoted.hex 8 c.toNat

/-- A text quoted for a message. -/
def shown (s : String) : String :=
  let cs := s.toList
  let quote := if cs.contains '\'' && !cs.contains '"' then '"' else '\''
  String.ofList (quote :: (cs.flatMap (shownChar quote) ++ [quote]))

end Text

namespace Scalar

/-- A scalar inside another value. -/
def shown : Scalar → String
  | .null => "None"
  | .bool b => if b then "True" else "False"
  | .int n => intText n
  | .float x => decimals.write x
  | .text s => Text.shown s
  | .date d => d.shown
  | .moment m => m.shown

/-- A scalar by itself. -/
def display : Scalar → String
  | .text s => s
  | .date d => d.iso
  | .moment m => m.iso
  | s => s.shown

end Scalar

mutual

/-- A value inside another value. -/
def Value.shown : Value → String
  | .scalar s => s.shown
  | .list items => "[" ++ join ", " (Value.shownAll items) ++ "]"
  | .object fields => "\x7b" ++ join ", " (Fields.shownAll fields) ++ "\x7d"

def Value.shownAll : List Value → List String
  | [] => []
  | v :: vs => v.shown :: Value.shownAll vs

def Fields.shownAll : List (Scalar × Value) → List String
  | [] => []
  | (k, v) :: fields => (k.shown ++ ": " ++ v.shown) :: Fields.shownAll fields

end

/-- A value by itself. -/
def Value.display : Value → String
  | .scalar s => s.display
  | v => v.shown

end SchemaForge
