/-!
# Binary floating-point numbers

A document may hold numbers such as `1.5` or `1e3`. They are kept as the exact value they denote,
a sign, a mantissa and a power of two, so that comparing, negating and printing them needs no
machine arithmetic and every fact about them is a fact about natural numbers.

* `Double.ofDecimal` reads a decimal, rounding to the nearest number and a half to the even one;
* `Quantity` is the common measure in which whole numbers and doubles are compared.
-/

namespace SchemaForge

/--
A binary floating-point number of 64 bits.

`finite negative m e` denotes `± m * 2 ^ e`. The numbers made here are normal: `m < 2 ^ 53` and
`-1074 ≤ e ≤ 971`, and either `2 ^ 52 ≤ m` or `e = -1074`.
-/
inductive Double where
  | finite (negative : Bool) (mantissa : Nat) (exponent : Int)
  | infinite (negative : Bool)
  | nan
deriving DecidableEq, Repr, Inhabited

namespace Double

/-! ## Rounding -/

/-- The whole number nearest to `n / d`; a half goes to the even neighbour. -/
def nearestEven (n d : Nat) : Nat :=
  let q := n / d
  let r := n % d
  if 2 * r < d then q
  else if d < 2 * r then q + 1
  else q + q % 2

/-- The least exponent of a double. -/
def minExponent : Int := -1074

/-- The greatest exponent of a double. -/
def maxExponent : Int := 971

/-- The exponent at which `num / den` has a mantissa of 53 bits, or the least one there is. -/
def exponentOf (num den : Nat) : Int :=
  let e : Int := (num.log2 : Int) - (den.log2 : Int) - 52
  let short := num <<< (-e).toNat < den <<< (52 + e.toNat)
  max minExponent (if short then e - 1 else e)

/-- The double nearest to `± num / den`. -/
def ofRatio (negative : Bool) (num den : Nat) : Double :=
  if num = 0 then .finite negative 0 minExponent
  else
    let e := exponentOf num den
    let m := nearestEven (num <<< (-e).toNat) (den <<< e.toNat)
    let (m, e) := if m = 1 <<< 53 then (1 <<< 52, e + 1) else (m, e)
    if maxExponent < e then .infinite negative else .finite negative m e

/--
The double nearest to `± digits * 10 ^ exponent`.

Numbers beyond the range of doubles are recognised by the number of their digits, so no large
power of ten is ever computed.
-/
def ofDecimal (negative : Bool) (digits : Nat) (exponent : Int) : Double :=
  let places : Int := exponent + (Nat.toDigits 10 digits).length
  if digits = 0 then .finite negative 0 minExponent
  else if 310 < places then .infinite negative
  else if places < -330 then .finite negative 0 minExponent
  else ofRatio negative (digits * Nat.pow 10 exponent.toNat) (Nat.pow 10 (-exponent).toNat)

/-! ## Parts -/

/-- The number with the opposite sign. -/
def negate : Double → Double
  | .finite s m e => .finite (!s) m e
  | .infinite s => .infinite (!s)
  | .nan => .nan

/-- The whole number a double is equal to, if there is one. -/
def toInt? : Double → Option Int
  | .finite s m e =>
    if 0 ≤ e then some (signed s (m <<< e.toNat))
    else
      let d := 1 <<< (-e).toNat
      if m % d = 0 then some (signed s (m / d)) else none
  | _ => none
where
  signed (negative : Bool) (n : Nat) : Int := if negative then -(n : Int) else n

end Double

/-! ## Comparison -/

/-- What a number measures: a ratio with a positive denominator, an infinity, or nothing. -/
inductive Quantity where
  | ratio (num : Int) (den : Nat)
  | infinite (negative : Bool)
  | undefined
deriving DecidableEq, Repr

namespace Quantity

def ofInt (n : Int) : Quantity := .ratio n 1

/-- The exact value of a double. -/
def ofDouble : Double → Quantity
  | .finite s m e =>
    let n : Int := (m <<< e.toNat : Nat)
    .ratio (if s then -n else n) (1 <<< (-e).toNat)
  | .infinite s => .infinite s
  | .nan => .undefined

/-- Equality of measures. What measures nothing is equal to nothing. -/
def same : Quantity → Quantity → Bool
  | .ratio a b, .ratio c d => a * d == c * b
  | .infinite s, .infinite t => s == t
  | _, _ => false

/-- The strict order of measures. What measures nothing is not comparable. -/
def less : Quantity → Quantity → Bool
  | .ratio a b, .ratio c d => a * d < c * b
  | .infinite s, .ratio _ _ => s
  | .ratio _ _, .infinite t => !t
  | .infinite s, .infinite t => s && !t
  | _, _ => false

end Quantity

/-! ## Limits -/

/-- A bound on a count: a greatest number, or none. -/
inductive Limit where
  | atMost (n : Nat)
  | unbounded
deriving DecidableEq, Repr, Inhabited

namespace Limit

/-- The counts that do not exceed a measure. -/
def notAbove : Quantity → Limit
  | .ratio a b => .atMost (a / b).toNat
  | .infinite true => .atMost 0
  | .infinite false => .unbounded
  | .undefined => .unbounded

/-- The counts up to the first that reaches a measure. -/
def reaching : Quantity → Limit
  | .ratio a b => .atMost (-((-a) / b)).toNat
  | .infinite true => .atMost 0
  | .infinite false => .unbounded
  | .undefined => .unbounded

/-- Whether a count has come up to the bound. -/
def reachedBy (limit : Limit) (count : Nat) : Bool :=
  match limit with
  | .atMost n => n ≤ count
  | .unbounded => false

end Limit

end SchemaForge
