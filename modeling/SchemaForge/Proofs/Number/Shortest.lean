import Mathlib.Data.Nat.Digits.Defs
import Mathlib.Data.Nat.Log
import SchemaForge.Number.Shortest

/-!
# Only zero is written as zero

The search for the shortest decimal of a double starts at the place of its first digit, so on every
grid that it looks at, the double is at least one unit large. Rounding it to a neighbour on the grid
never gives zero then, and neither does moving zeros at the end into the exponent.
-/

namespace SchemaForge.Double

/-! ## The first digit -/

theorem pow_length_toDigits_le {n : Nat} (hn : 0 < n) :
    10 ^ ((Nat.toDigits 10 n).length - 1) ≤ n := by
  by_contra hlt
  rw [Nat.not_le] at hlt
  by_cases hone : (Nat.toDigits 10 n).length - 1 = 0
  · rw [hone, Nat.pow_zero] at hlt
    omega
  · have hlength := Nat.toDigits_length 10 n _ (Nat.pos_of_ne_zero hone) hlt
    omega

theorem le_mul_pow_leadingZeros {den : Nat} : ∀ {fuel value : Nat}, den ≤ value * 10 ^ fuel →
    den ≤ value * 10 ^ (leadingZeros value den fuel + 1)
  | 0, value, h => by
    rw [leadingZeros]
    omega
  | fuel + 1, value, h => by
    rw [leadingZeros]
    split
    · rename_i hle
      simpa using hle
    · have hfuel : den ≤ value * 10 * 10 ^ fuel := by
        rw [Nat.mul_assoc, ← Nat.pow_succ']
        exact h
      rw [Nat.add_comm 1, Nat.pow_succ', ← Nat.mul_assoc]
      exact le_mul_pow_leadingZeros hfuel

variable {n : Neighbourhood} {place first : Int}

/-- Below the place of its first digit, a value is at least one unit large. -/
theorem one_le_gridFloor (hvalue : 0 < n.value) (hden : 0 < n.den)
    (h : place < firstPlace n.value n.den) : 1 ≤ gridFloor n place := by
  unfold firstPlace at h
  unfold gridFloor
  have hpos : 0 < n.den * 10 ^ place.toNat := Nat.mul_pos hden (Nat.pow_pos (by decide))
  refine (Nat.le_div_iff_mul_le hpos).mpr ?_
  rw [Nat.one_mul]
  show n.den * 10 ^ place.toNat ≤ n.value * 10 ^ (-place).toNat
  split at h
  · rename_i hle
    have hup : n.value ≤ n.value * 10 ^ (-place).toNat :=
      Nat.le_mul_of_pos_right _ (Nat.pow_pos (by decide))
    have hplace : place.toNat ≤ (Nat.toDigits 10 (n.value / n.den)).length - 1 := by omega
    calc n.den * 10 ^ place.toNat
        ≤ n.den * 10 ^ ((Nat.toDigits 10 (n.value / n.den)).length - 1) :=
          Nat.mul_le_mul_left _ (Nat.pow_le_pow_right (by decide) hplace)
      _ ≤ n.den * (n.value / n.den) :=
          Nat.mul_le_mul_left _ (pow_length_toDigits_le (Nat.div_pos hle hden))
      _ ≤ n.value := Nat.mul_div_le _ _
      _ ≤ n.value * 10 ^ (-place).toNat := hup
  · have hfuel : n.den ≤ n.value * 10 ^ (n.den.log2 + 1) :=
      calc n.den ≤ 2 ^ (n.den.log2 + 1) := Nat.lt_log2_self.le
        _ ≤ 10 ^ (n.den.log2 + 1) := Nat.pow_le_pow_left (by decide) _
        _ ≤ n.value * 10 ^ (n.den.log2 + 1) := Nat.le_mul_of_pos_left _ hvalue
    have hplace : place.toNat = 0 := by omega
    rw [hplace, Nat.pow_zero, Nat.mul_one]
    calc n.den ≤ n.value * 10 ^ (leadingZeros n.value n.den (n.den.log2 + 1) + 1) :=
          le_mul_pow_leadingZeros hfuel
      _ ≤ n.value * 10 ^ (-place).toNat :=
          Nat.mul_le_mul_left _ (Nat.pow_le_pow_right (by decide) (by omega))

/-! ## The search -/

theorem gridPoint?_ne_zero {c : Nat} (hfloor : 1 ≤ gridFloor n place)
    (h : gridPoint? n place = some c) : c ≠ 0 := by
  unfold gridPoint? at h
  dsimp only at h
  split at h
  · cases h
    split
    · omega
    · split <;> omega
  · cases h
    omega
  · cases h
    omega
  · cases h

theorem searchGrid_ne_zero (hfloor : ∀ place, place < first → 1 ≤ gridFloor n place) :
    ∀ {fuel digits : Nat}, 0 < digits → (searchGrid n first digits fuel).1 ≠ 0
  | 0, digits, hdigits => by
    have hle := hfloor (first - digits) (by omega)
    rw [searchGrid]
    omega
  | fuel + 1, digits, hdigits => by
    rw [searchGrid]
    split
    · rename_i c hc
      exact gridPoint?_ne_zero (hfloor (first - digits) (by omega)) hc
    · exact searchGrid_ne_zero hfloor (Nat.succ_pos _)

theorem trimZeros_ne_zero : ∀ {fuel c : Nat} {place : Int}, c ≠ 0 → (trimZeros c place fuel).1 ≠ 0
  | 0, _, _, h => h
  | fuel + 1, c, place, h => by
    rw [trimZeros]
    split
    · rename_i htrim
      exact trimZeros_ne_zero (by omega)
    · exact h

/-- **The shortest decimal of a number other than zero is not zero.** -/
theorem shortest_ne_zero {mantissa : Nat} (h : mantissa ≠ 0) (exponent : Int) :
    (shortest mantissa exponent).1 ≠ 0 := by
  have hshift : ∀ k : Nat, 0 < 1 <<< k := fun k => by
    rw [Nat.one_shiftLeft]
    exact Nat.two_pow_pos k
  have hvalue : 0 < (neighbourhood mantissa exponent).value := Nat.mul_pos (by omega) (hshift _)
  have hden : 0 < (neighbourhood mantissa exponent).den := hshift _
  unfold shortest
  rw [if_neg h]
  generalize neighbourhood mantissa exponent = n at hvalue hden
  have hgrid : (searchGrid n (firstPlace n.value n.den) 1 17).1 ≠ 0 :=
    searchGrid_ne_zero (fun place hplace => one_le_gridFloor hvalue hden hplace) Nat.one_pos
  exact trimZeros_ne_zero hgrid

end SchemaForge.Double
