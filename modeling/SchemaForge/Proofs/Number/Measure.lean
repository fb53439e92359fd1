import Mathlib.Algebra.Field.Rat
import Mathlib.Algebra.Order.Ring.Unbundled.Rat
import Mathlib.Order.WithBotTop
import Mathlib.Tactic.FieldSimp
import Mathlib.Tactic.Ring
import SchemaForge.Document.Value

/-!
# What numbers measure

Whole numbers and doubles denote points on one line: the ratios, with an infinity at each end. What
is no number denotes none, and truth values are no numbers here, although the equality of documents
takes them for one and zero. A NaN is a number without a place on the line.
-/

namespace SchemaForge

/-- The ratios and the two infinities. -/
abbrev Measure := WithBotTop ℚ

namespace Double

/-- The ratio that a sign, a mantissa and a power of two denote. -/
def ratio (negative : Bool) (mantissa : Nat) (exponent : Int) : ℚ :=
  (if negative then -1 else 1) * mantissa * 2 ^ exponent

/-- What a double measures. -/
def measure? : Double → Option Measure
  | .finite negative mantissa exponent => some (ratio negative mantissa exponent : ℚ)
  | .infinite negative => some (if negative then ⊥ else ⊤)
  | .nan => none

theorem cast_signed (negative : Bool) (n : Nat) :
    ((toInt?.signed negative n : Int) : ℚ) = (if negative then -1 else 1) * n := by
  cases negative <;> simp [toInt?.signed]

theorem ratio_natCast (negative : Bool) (m k : Nat) :
    ratio negative m k = toInt?.signed negative (m <<< k) := by
  rw [ratio, cast_signed, Nat.shiftLeft_eq, zpow_natCast]
  push_cast
  ring

theorem ratio_neg_natCast (negative : Bool) (q k : Nat) :
    ratio negative (2 ^ k * q) (-k) = toInt?.signed negative q := by
  have htwo : (2 : ℚ) ^ k ≠ 0 := pow_ne_zero k two_ne_zero
  rw [ratio, cast_signed, zpow_neg, zpow_natCast]
  push_cast
  field_simp

/-- **The whole number that a double is found equal to is what the double measures.** -/
theorem measure?_of_toInt? {x : Double} {n : Int} (h : x.toInt? = some n) :
    x.measure? = some ((n : ℚ) : Measure) := by
  cases x with
  | finite negative m e =>
    have hratio : ratio negative m e = n := by
      simp only [toInt?] at h
      split at h
      · rename_i he
        obtain ⟨k, rfl⟩ := Int.eq_ofNat_of_zero_le he
        cases h
        exact ratio_natCast negative m k
      · obtain ⟨k, hk⟩ := Int.eq_ofNat_of_zero_le (by omega : 0 ≤ -e)
        obtain rfl : e = -k := by omega
        rw [hk, Int.toNat_natCast, Nat.one_shiftLeft] at h
        split at h
        · rename_i hmod
          obtain ⟨q, rfl⟩ := Nat.dvd_of_mod_eq_zero hmod
          rw [Nat.mul_div_cancel_left _ (Nat.two_pow_pos k)] at h
          cases h
          exact ratio_neg_natCast negative q k
        · cases h
    rw [measure?, hratio]
  | infinite negative => cases h
  | nan => cases h

end Double

/-- What a scalar measures, if it is a number. -/
def Scalar.measure? : Scalar → Option Measure
  | .int n => some (n : ℚ)
  | .float x => x.measure?
  | _ => none

/-- What a value measures, if it is a number. -/
def Value.measure? : Value → Option Measure
  | .scalar s => s.measure?
  | _ => none

end SchemaForge
