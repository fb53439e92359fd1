import SchemaForge.Document.Value
import SchemaForge.Text.Quoted

/-!
# Reading JSON

JSON texts as documents. The names `NaN`, `Infinity` and `-Infinity` are read as numbers. A number
with neither point nor exponent is whole, of any size; any other is a double. Of fields with the
same name the first gives the place and the last the value.

Every reader takes the rest of the input and gives what it left. The readers of values go down by
a bound on the number of steps, which `parse?` takes from the length of the text.
-/

namespace SchemaForge.Json

open Text

/-- White space between the parts of a JSON text. -/
def isGap (c : Char) : Bool := c == ' ' || c == '\t' || c == '\n' || c == '\r'

def skipGap (cs : List Char) : List Char := cs.dropWhile isGap

/-! ## Numbers -/

/-- The number written by decimal digits. -/
def digitsValue (cs : List Char) : Nat :=
  cs.foldl (fun n c => n * 10 + (c.toNat - 0x30)) 0

/-- The digits at the start of the input, and the rest. -/
def takeDigits (cs : List Char) : List Char × List Char := cs.span Char.isDigit

/-- A fraction: a point and at least one digit. -/
def readFraction (cs : List Char) : List Char × List Char :=
  match cs with
  | '.' :: rest =>
    match takeDigits rest with
    | ([], _) => ([], cs)
    | (ds, tail) => (ds, tail)
  | _ => ([], cs)

/-- An exponent: its mark, perhaps a sign, and at least one digit. -/
def readExponent (cs : List Char) : Option Int × List Char :=
  match cs with
  | e :: rest =>
    if e == 'e' || e == 'E' then
      let (negative, body) :=
        match rest with
        | '-' :: r => (true, r)
        | '+' :: r => (false, r)
        | _ => (false, rest)
      match takeDigits body with
      | ([], _) => (none, cs)
      | (ds, tail) =>
        let n : Int := digitsValue ds
        (some (if negative then -n else n), tail)
    else (none, cs)
  | [] => (none, [])

/-- The digits before the point: a single zero, or digits that do not start with zero. -/
def readWhole : List Char → Option (List Char × List Char)
  | '0' :: rest => some (['0'], rest)
  | cs =>
    match takeDigits cs with
    | ([], _) => none
    | (ds, tail) => some (ds, tail)

/-- A number, after its sign. -/
def readNumber (negative : Bool) (cs : List Char) : Option (Value × List Char) :=
  match readWhole cs with
  | none => none
  | some (whole, rest) =>
    let (fraction, rest) := readFraction rest
    let (exponent, rest) := readExponent rest
    if fraction.isEmpty && exponent.isNone then
      let n : Int := digitsValue whole
      some (.int (if negative then -n else n), rest)
    else
      let e : Int := exponent.getD 0 - fraction.length
      some (.float (Double.ofDecimal negative (digitsValue (whole ++ fraction)) e), rest)

/-! ## Values -/

/-- The names that stand for values. -/
def constants : List (String × Value) :=
  [("null", .null), ("true", .bool true), ("false", .bool false), ("NaN", .float .nan),
   ("Infinity", .float (.infinite false)), ("-Infinity", .float (.infinite true))]

/-- A name that stands for a value, at the start of the input. -/
def readConstant (cs : List Char) : Option (Value × List Char) :=
  (constants.find? fun c => startsWith c.1.toList cs).map fun c =>
    (c.2, cs.drop c.1.length)

mutual

/-- A value at the start of the input. -/
def readValue : Nat → List Char → Option (Value × List Char)
  | 0, _ => none
  | fuel + 1, cs =>
    match readConstant cs with
    | some r => some r
    | none =>
      match cs with
      | '"' :: rest =>
        (Quoted.decodeChars none rest).map fun (s, tail) => (.text (String.ofList s), tail)
      | '[' :: rest =>
        match skipGap rest with
        | ']' :: tail => some (.list [], tail)
        | body => (readItems fuel body).map fun (items, tail) => (.list items, tail)
      | '{' :: rest =>
        match skipGap rest with
        | '}' :: tail => some (.object [], tail)
        | body =>
          (readFields fuel body).map fun (fields, tail) => (.object (Fields.ofPairs fields), tail)
      | '-' :: rest => readNumber true rest
      | _ => readNumber false cs

/-- The items of a list, the first of which stands at the start of the input. -/
def readItems : Nat → List Char → Option (List Value × List Char)
  | 0, _ => none
  | fuel + 1, cs =>
    match readValue fuel cs with
    | none => none
    | some (v, rest) =>
      match skipGap rest with
      | ']' :: tail => some ([v], tail)
      | ',' :: tail =>
        (readItems fuel (skipGap tail)).map fun (vs, tail) => (v :: vs, tail)
      | _ => none

/-- The fields of an object, the first of which stands at the start of the input. -/
def readFields : Nat → List Char → Option (List (Scalar × Value) × List Char)
  | 0, _ => none
  | fuel + 1, cs =>
    match cs with
    | '"' :: rest =>
      match Quoted.decodeChars none rest with
      | none => none
      | some (name, rest) =>
        match skipGap rest with
        | ':' :: rest =>
          match readValue fuel (skipGap rest) with
          | none => none
          | some (v, rest) =>
            let field := (Scalar.text (String.ofList name), v)
            match skipGap rest with
            | '}' :: tail => some ([field], tail)
            | ',' :: tail =>
              (readFields fuel (skipGap tail)).map fun (fields, tail) => (field :: fields, tail)
            | _ => none
        | _ => none
    | _ => none

end

/-- The document that a JSON text denotes. -/
def parse? (text : String) : Option Value :=
  let cs := text.toList
  match readValue (2 * cs.length + 2) (skipGap cs) with
  | some (v, rest) => if (skipGap rest).isEmpty then some v else none
  | none => none

end SchemaForge.Json
