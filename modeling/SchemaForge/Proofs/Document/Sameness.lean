import Mathlib.Tactic.Ring
import SchemaForge.Document.Value

/-!
# The same scalars

Numbers are the same if they measure the same. They measure ratios, which are compared by cross
multiplication, and that carries over from one to the next because no denominator is zero.
-/

namespace SchemaForge

theorem Quantity.same_trans {p q r : Quantity} (hq : ∀ n d, q = .ratio n d → 0 < d)
    (hpq : p.same q = true) (hqr : q.same r = true) : p.same r = true := by
  cases p <;> cases q <;> cases r <;>
    simp only [Quantity.same, beq_iff_eq, Bool.false_eq_true] at hpq hqr ⊢
  · rename_i n d n' d' n'' d''
    have hpos : (d' : Int) ≠ 0 := by
      have := hq n' d' rfl
      omega
    refine Int.eq_of_mul_eq_mul_right hpos ?_
    calc n * d'' * d' = n * d' * d'' := by ring
      _ = n' * d * d'' := by rw [hpq]
      _ = n' * d'' * d := by ring
      _ = n'' * d' * d := by rw [hqr]
      _ = n'' * d * d' := by ring
  · exact hpq.trans hqr

theorem Quantity.same_symm {p q : Quantity} (h : p.same q = true) : q.same p = true := by
  cases p <;> cases q <;> simp only [Quantity.same, beq_iff_eq, Bool.false_eq_true] at h ⊢
  · exact h.symm
  · exact h.symm

namespace Scalar

/-- What a number measures has a positive denominator. -/
theorem den_pos {s : Scalar} {n : Int} {d : Nat} (h : s.quantity? = some (.ratio n d)) : 0 < d := by
  cases s with
  | bool b =>
    cases h
    exact Nat.one_pos
  | int m =>
    cases h
    exact Nat.one_pos
  | float x =>
    cases x with
    | finite negative m e =>
      cases h
      rw [Nat.one_shiftLeft]
      exact Nat.two_pow_pos _
    | infinite negative => cases h
    | nan => cases h
  | _ => cases h

theorem same_trans {a b c : Scalar} (hab : a.same b = true) (hbc : b.same c = true) :
    a.same c = true := by
  unfold same at *
  cases hb : b.quantity? with
  | none =>
    -- what is no number is the same as itself only
    rw [hb] at hab hbc
    cases ha : a.quantity? with
    | some p =>
      rw [ha] at hab
      cases hab
    | none =>
      rw [ha] at hab
      rw [eq_of_beq hab]
      exact hbc
  | some q =>
    rw [hb] at hab hbc
    cases ha : a.quantity? with
    | none =>
      rw [ha] at hab
      cases hab
    | some p =>
      cases hc : c.quantity? with
      | none =>
        rw [hc] at hbc
        cases hbc
      | some r =>
        rw [ha] at hab
        rw [hc] at hbc
        exact Quantity.same_trans (fun n d h => den_pos (h ▸ hb)) hab hbc

theorem same_symm {a b : Scalar} (h : a.same b = true) : b.same a = true := by
  unfold same at *
  cases ha : a.quantity? with
  | none =>
    cases hb : b.quantity? with
    | none =>
      rw [ha, hb] at h
      simpa using (eq_of_beq h).symm
    | some q =>
      rw [ha, hb] at h
      cases h
  | some p =>
    cases hb : b.quantity? with
    | none =>
      rw [ha, hb] at h
      cases h
    | some q =>
      rw [ha, hb] at h
      exact Quantity.same_symm h

/-- What is the same as one of two same scalars is the same as the other. -/
theorem same_congr {a b c : Scalar} (h : b.same c = true) : a.same b = a.same c := by
  rw [Bool.eq_iff_iff]
  exact ⟨fun hab => same_trans hab h, fun hac => same_trans hac (same_symm h)⟩

end Scalar

end SchemaForge
