import SchemaForge.Document.Value
import SchemaForge.Number.Shortest
import SchemaForge.Text.Quoted

/-!
# Writing JSON

Documents as JSON texts, with a blank after each comma and colon. A `Style` says whether characters
beyond ASCII are escaped, whether fields are put in the order of their names, and whether days and
moments, which JSON does not know, are written as texts.

Fields are named by texts, so other names are written as the text of the scalar. Sorting needs
names of one kind, texts or numbers: an object that mixes them cannot be written sorted.
-/

namespace SchemaForge

open Text

/-- Positional from `0.0001` up to sixteen digits, otherwise an exponent of two digits or more. -/
def Json.decimals : DecimalStyle where
  positionalBelow := 16
  positionalFrom := -4
  exponentWidth := 2
  infinity := "Infinity"
  notANumber := "NaN"

/-- A whole number in decimal digits. -/
def intText (n : Int) : String :=
  (if n < 0 then "-" else "") ++ String.ofList (Nat.toDigits 10 n.natAbs)

namespace Json

/-- The choices of a writer. -/
structure Style where
  /-- Characters beyond ASCII are written as escapes. -/
  asciiOnly : Bool := false
  /-- Fields are written in the order of their names. -/
  sorted : Bool := false
  /-- Days and moments are written as texts. -/
  days : Bool := false

/-- Every character as it is and days as texts: the style of answers. -/
def plain : Style where
  days := true

/-- ASCII only, sorted, days as texts: equal documents have one text. -/
def canonical : Style where
  asciiOnly := true
  sorted := true
  days := true

/-- ASCII only: the style of names inside generated code. -/
def ascii : Style where
  asciiOnly := true

/-- Every character as it is: the style of literals in generated code. -/
def literal : Style := {}

def quote (asciiOnly : Bool) (s : String) : String :=
  String.ofList (Quoted.encode asciiOnly s.toList)

def boolText (b : Bool) : String := if b then "true" else "false"

def writeScalar (style : Style) : Scalar → Except Fault String
  | .null => .ok "null"
  | .bool b => .ok (boolText b)
  | .int n => .ok (intText n)
  | .float x => .ok (decimals.write x)
  | .text s => .ok (quote style.asciiOnly s)
  | .date d => if style.days then .ok (quote style.asciiOnly d.iso) else .error .wrongKind
  | .moment m => if style.days then .ok (quote style.asciiOnly m.iso) else .error .wrongKind

/-- The text that names a field. -/
def nameText : Scalar → Except Fault String
  | .null => .ok "null"
  | .bool b => .ok (boolText b)
  | .int n => .ok (intText n)
  | .float x => .ok (decimals.write x)
  | .text s => .ok s
  | .date _ => .error .wrongKind
  | .moment _ => .error .wrongKind

/-! ## Order of fields -/

/-- The order of two names, if both are texts or both are numbers. -/
def nameLess : Scalar → Scalar → Bool
  | .text a, .text b => a < b
  | a, b =>
    match a.quantity?, b.quantity? with
    | some p, some q => p.less q
    | _, _ => false

/-- Whether names can be put in order. -/
def sortable (names : List Scalar) : Bool :=
  names.length ≤ 1 ||
    names.all (fun n => match n with | .text _ => true | _ => false) ||
    names.all (fun n => n.quantity?.isSome)

/-- Puts a written field before the first one that does not come before it. -/
def insertField (field : Scalar × String) :
    List (Scalar × String) → List (Scalar × String)
  | [] => [field]
  | other :: rest =>
    if nameLess other.1 field.1 then other :: insertField field rest else field :: other :: rest

/-- Written fields in the order of their names. -/
def sortFields (fields : List (Scalar × String)) : Except Fault (List (Scalar × String)) :=
  if sortable (fields.map (·.1)) then
    .ok (fields.foldr insertField [])
  else .error .wrongKind

def writeField (style : Style) (field : Scalar × String) : Except Fault String := do
  let name ← nameText field.1
  return quote style.asciiOnly name ++ ": " ++ field.2

/-! ## Documents -/

mutual

/-- The JSON text of a document. -/
def write (style : Style) : Value → Except Fault String
  | .scalar s => writeScalar style s
  | .list items => do
    let parts ← writeAll style items
    return "[" ++ join ", " parts ++ "]"
  | .object fields => do
    let parts ← writeValues style fields
    let parts ← if style.sorted then sortFields parts else .ok parts
    let parts ← parts.mapM (writeField style)
    return "\x7b" ++ join ", " parts ++ "\x7d"

def writeAll (style : Style) : List Value → Except Fault (List String)
  | [] => .ok []
  | v :: vs => do
    let part ← write style v
    let parts ← writeAll style vs
    return part :: parts

def writeValues (style : Style) : List (Scalar × Value) → Except Fault (List (Scalar × String))
  | [] => .ok []
  | (k, v) :: fields => do
    let part ← write style v
    let parts ← writeValues style fields
    return (k, part) :: parts

end

/-- The JSON list of some names. -/
def writeNames (style : Style) (names : List Scalar) : Except Fault String :=
  write style (.list (names.map .scalar))

end Json

end SchemaForge
