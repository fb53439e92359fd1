import SchemaForge.Document.Yaml.Timestamp

/-!
# What plain scalars mean

A plain scalar may be null, a truth value, a number, a day or a moment by its form; all others, and
all scalars in quotes or blocks, are texts. Numbers may hold low lines between their digits. Whole
numbers are written in decimal, after `0` in octal, after `0x` in hexadecimal, after `0b` in binary,
or with colons in base sixty; other numbers need a point, and a sign in their exponent.
-/

namespace SchemaForge.Yaml

/-! ## Names -/

def trueWords : List String :=
  ["yes", "Yes", "YES", "true", "True", "TRUE", "on", "On", "ON"]

def falseWords : List String :=
  ["no", "No", "NO", "false", "False", "FALSE", "off", "Off", "OFF"]

def nullWords : List String := ["", "~", "null", "Null", "NULL"]

/-! ## Digits -/

/-- A digit, or the low line that may stand between digits. -/
def isSpacedDigit (c : Char) : Bool := c.isDigit || c == '_'

/-- A text without low lines. -/
def withoutLines (cs : List Char) : List Char := cs.filter (· != '_')

/-- A sign at the start of a text, and what follows it. -/
def takeSign : List Char → Bool × List Char
  | '-' :: cs => (true, cs)
  | '+' :: cs => (false, cs)
  | cs => (false, cs)

/-- The number that digits of a base write, with low lines between them. -/
def basedNumber (base : Nat) (digits : List Char) : Nat :=
  (withoutLines digits).foldl (fun n c => n * base + (hexValue? c).getD 0) 0

/-- The number after the mark of its base, which needs a digit. -/
def markedNumber (base : Nat) (digits : List Char) : Except Fault Nat :=
  if (withoutLines digits).isEmpty then
    .error (.badValue ("invalid literal for int() with base " ++ Calendar.plain base ++ ": ''"))
  else .ok (basedNumber base digits)

/-- Whether a text is a number below sixty of one or two digits. -/
def isSixtieth : List Char → Bool
  | [a] => a.isDigit
  | [a, b] => '0' ≤ a && a ≤ '5' && b.isDigit
  | _ => false

/-- The number that digits in base sixty write. -/
def sixtyNumber (parts : List (List Char)) : Nat :=
  parts.foldl (fun n p => n * 60 + Json.digitsValue (withoutLines p)) 0

/-! ## Whole numbers -/

/-- A whole number without its sign. -/
def wholeNumber? (cs : List Char) : Option (Except Fault Nat) :=
  match cs with
  | [] => none
  | ['0'] => some (.ok 0)
  | '0' :: 'b' :: ds =>
    if !ds.isEmpty && ds.all (fun c => c == '0' || c == '1' || c == '_') then
      some (markedNumber 2 ds)
    else none
  | '0' :: 'x' :: ds =>
    if !ds.isEmpty && ds.all (fun c => (hexValue? c).isSome || c == '_') then
      some (markedNumber 16 ds)
    else none
  | '0' :: ds =>
    if ds.all (fun c => ('0' ≤ c && c ≤ '7') || c == '_') then some (.ok (basedNumber 8 ds))
    else none
  | c :: _ =>
    match Text.splitAt ':' cs with
    | whole :: parts =>
      if c.isDigit && whole.all isSpacedDigit && parts.all isSixtieth then
        some (.ok (sixtyNumber (whole :: parts)))
      else none
    | [] => none

/-- A whole number. -/
def int? (cs : List Char) : Option (Except Fault Scalar) :=
  let (negative, body) := takeSign cs
  (wholeNumber? body).map fun n => n.map fun n => .int (if negative then -(n : Int) else n)

/-! ## Doubles -/

/-- An exponent, which ends a text; it needs a sign. -/
def exponent? : List Char → Option Int
  | [] => some 0
  | e :: sign :: ds =>
    if (e == 'e' || e == 'E') && !ds.isEmpty && ds.all Char.isDigit then
      if sign == '-' then some (-(Json.digitsValue ds : Int))
      else if sign == '+' then some (Json.digitsValue ds)
      else none
    else none
  | _ => none

/-- The double that digits before and after a point write. -/
def decimalOf (whole fraction : List Char) (exponent : Int) : Double :=
  let whole := withoutLines whole
  let fraction := withoutLines fraction
  .ofDecimal false (Json.digitsValue (whole ++ fraction)) (exponent - fraction.length)

/-- A number with a point, without its sign; `bare` lets it start with the point. -/
def pointNumber? (bare : Bool) (cs : List Char) : Option Double :=
  let (whole, rest) := cs.span isSpacedDigit
  match rest with
  | '.' :: rest =>
    let (fraction, rest) := rest.span isSpacedDigit
    let starts (ds : List Char) := (ds.head?.map Char.isDigit).getD false
    if starts whole || (bare && whole.isEmpty && starts fraction) then
      (exponent? rest).map (decimalOf whole fraction)
    else none
  | _ => none

/-- The exact value of a double that is no less than zero, as a ratio. -/
def ratioOf : Double → Nat × Nat
  | .finite _ m e => (m <<< e.toNat, 1 <<< (-e).toNat)
  | _ => (0, 1)

/-- The rounded sum of a double and the rounded product of another one with a whole number. -/
def addScaled (x y : Double) (factor : Nat) : Double :=
  let (n, d) := ratioOf y
  let (a, b) := ratioOf (.ofRatio false (n * factor) d)
  let (p, q) := ratioOf x
  .ofRatio false (p * b + a * q) (q * b)

/-- The sum of parts, the last of which comes first, each weighing sixty times the one before. -/
def sixtySum (factor : Nat) (sum : Double) : List Double → Double
  | [] => sum
  | p :: ps => sixtySum (factor * 60) (addScaled sum p factor) ps

/-- A number in base sixty with a point, without its sign. -/
def sixtyPointNumber? (cs : List Char) : Option Double :=
  match (Text.splitAt ':' cs).reverse with
  | last :: middle :: more =>
    let parts := middle :: more
    let whole := (parts.getLast?).getD []
    let (seconds, fraction) := last.span Char.isDigit
    match fraction with
    | '.' :: fraction =>
      if isSixtieth seconds && fraction.all isSpacedDigit && parts.dropLast.all isSixtieth &&
          (whole.head?.map Char.isDigit).getD false && whole.all isSpacedDigit then
        some (sixtySum 1 (.ofDecimal false 0 0)
          (decimalOf seconds fraction 0 :: parts.map fun p => decimalOf p [] 0))
      else none
    | _ => none
  | _ => none

def infinityWords : List String := [".inf", ".Inf", ".INF"]

def nanWords : List String := [".nan", ".NaN", ".NAN"]

/-- A number that is not written as a whole one. -/
def double? (cs : List Char) : Option Double :=
  if nanWords.contains (String.ofList cs) then some .nan
  else
    let (negative, body) := takeSign cs
    let unsigned :=
      if infinityWords.contains (String.ofList body) then some (.infinite false)
      else (pointNumber? (body.length == cs.length) body).orElse fun _ => sixtyPointNumber? body
    unsigned.map fun x => if negative then x.negate else x

/-! ## Scalars -/

/-- What a plain scalar means. The signs `<<` and `=` mean something only as keys. -/
def resolve? (text : String) : Option (Except Fault Scalar) :=
  let cs := text.toList
  if trueWords.contains text then some (.ok (.bool true))
  else if falseWords.contains text then some (.ok (.bool false))
  else if nullWords.contains text then some (.ok .null)
  else if text == "<<" || text == "=" then none
  else
    match double? cs with
    | some x => some (.ok (.float x))
    | none => some (((int? cs).orElse fun _ => timestamp? cs).getD (.ok (.text text)))

end SchemaForge.Yaml
