import SchemaForge.Number.Double

/-!
# The shortest decimal of a double

The digits written for a double are the fewest that read back as the same double and, of those,
the nearest to it. All reals that round to a double form an interval; for one, two, … up to
seventeen digits the two neighbours of the double on that decimal grid are tested against it in
whole-number arithmetic, and the first grid with a hit gives the digits.

`DecimalStyle` holds the choices of a notation: where positional writing ends and how the exponent
looks.
-/

namespace SchemaForge

namespace Double

/-- The reals that round to a double, over one denominator: the value and both ends. -/
structure Neighbourhood where
  value : Nat
  low : Nat
  high : Nat
  den : Nat
  /-- The ends themselves round to the double. -/
  closed : Bool

/-- The neighbourhood of `mantissa * 2 ^ exponent`, counted in quarters of the last place. -/
def neighbourhood (mantissa : Nat) (exponent : Int) : Neighbourhood :=
  let scale := 1 <<< (exponent - 2).toNat
  let below := if mantissa = 1 <<< 52 ∧ minExponent < exponent then 1 else 2
  { value := 4 * mantissa * scale
    low := (4 * mantissa - below) * scale
    high := (4 * mantissa + 2) * scale
    den := 1 <<< (2 - exponent).toNat
    closed := mantissa % 2 == 0 }

/-- The number of leading places after the point that are zero, for a value below one. -/
def leadingZeros (value den : Nat) : Nat → Nat
  | 0 => 0
  | fuel + 1 => if den ≤ value * 10 then 0 else 1 + leadingZeros (value * 10) den fuel

/-- The place of the first digit: the `k` with `10 ^ (k - 1) ≤ value / den < 10 ^ k`. -/
def firstPlace (value den : Nat) : Int :=
  if den ≤ value then (Nat.toDigits 10 (value / den)).length
  else -(leadingZeros value den (den.log2 + 1) : Int)

/-- The value in units of `10 ^ place`, rounded down. -/
def gridFloor (n : Neighbourhood) (place : Int) : Nat :=
  n.value * Nat.pow 10 (-place).toNat / (n.den * Nat.pow 10 place.toNat)

/-- The multiple of `10 ^ place` nearest to the value among its two neighbours that round to it. -/
def gridPoint? (n : Neighbourhood) (place : Int) : Option Nat :=
  let up := Nat.pow 10 (-place).toNat
  let unit := n.den * Nat.pow 10 place.toNat
  let value := n.value * up
  let inside (c : Nat) : Bool :=
    if n.closed then n.low * up ≤ c * unit && c * unit ≤ n.high * up
    else n.low * up < c * unit && c * unit < n.high * up
  let f := gridFloor n place
  match inside f, inside (f + 1) with
  | true, true =>
    let down := value - f * unit
    let rest := (f + 1) * unit - value
    some (if down < rest then f else if rest < down then f + 1 else f + f % 2)
  | true, false => some f
  | false, true => some (f + 1)
  | false, false => none

/-- The first grid with a hit, from `digits` digits on; the value rounded down if there is none. -/
def searchGrid (n : Neighbourhood) (first : Int) (digits : Nat) : Nat → Nat × Int
  | 0 => (gridFloor n (first - digits), first - digits)
  | fuel + 1 =>
    match gridPoint? n (first - digits) with
    | some c => (c, first - digits)
    | none => searchGrid n first (digits + 1) fuel

/-- Trailing zeros go into the exponent. -/
def trimZeros (c : Nat) (place : Int) : Nat → Nat × Int
  | 0 => (c, place)
  | fuel + 1 => if c ≠ 0 ∧ c % 10 = 0 then trimZeros (c / 10) (place + 1) fuel else (c, place)

/-- The shortest decimal `c * 10 ^ p` of `mantissa * 2 ^ exponent`. -/
def shortest (mantissa : Nat) (exponent : Int) : Nat × Int :=
  if mantissa = 0 then (0, 0)
  else
    let n := neighbourhood mantissa exponent
    let (c, place) := searchGrid n (firstPlace n.value n.den) 1 17
    trimZeros c place 20

end Double

/-! ## Notation -/

/-- The choices of a decimal notation. -/
structure DecimalStyle where
  /-- Numbers below `10 ^ positionalBelow` are written without an exponent. -/
  positionalBelow : Int
  /-- Numbers from `10 ^ positionalFrom` on are written without an exponent. -/
  positionalFrom : Int
  /-- The least number of digits of an exponent. -/
  exponentWidth : Nat
  infinity : String
  notANumber : String

namespace DecimalStyle

def padLeft (width : Nat) (digits : List Char) : List Char :=
  List.replicate (width - digits.length) '0' ++ digits

/-- Digits with the decimal point after `point` of them. -/
def positional (digits : List Char) (point : Int) : List Char :=
  if point ≤ 0 then '0' :: '.' :: (List.replicate (-point).toNat '0' ++ digits)
  else if (digits.length : Int) ≤ point then
    digits ++ List.replicate (point.toNat - digits.length) '0' ++ ['.', '0']
  else digits.take point.toNat ++ '.' :: digits.drop point.toNat

/-- Digits with one before the point, and an exponent. -/
def scientific (style : DecimalStyle) (digits : List Char) (point : Int) : List Char :=
  let head :=
    match digits with
    | [] => []
    | [d] => [d]
    | d :: rest => d :: '.' :: rest
  let e := point - 1
  head ++ 'e' :: (if e < 0 then '-' else '+') ::
    padLeft style.exponentWidth (Nat.toDigits 10 e.natAbs)

/-- A double in the notation. -/
def write (style : DecimalStyle) : Double → String
  | .nan => style.notANumber
  | .infinite s => (if s then "-" else "") ++ style.infinity
  | .finite s m e =>
    let (c, place) := Double.shortest m e
    let digits := Nat.toDigits 10 c
    let point : Int := place + digits.length
    let body :=
      if style.positionalFrom < point ∧ point ≤ style.positionalBelow then positional digits point
      else scientific style digits point
    (if s then "-" else "") ++ String.ofList body

end DecimalStyle

/-- Zero has one digit before the point, as any number below ten has. -/
example : DecimalStyle.positional ['0'] 1 = ['0', '.', '0'] := by decide

end SchemaForge
