import Mathlib.Data.List.Basic
import Mathlib.Data.List.Nodup

/-!
# A list without its repetitions

`List.eraseDups` keeps the first of several equal elements. What is left is known for a list with one
more element, for a list of which some elements were taken out, and for a list that is cut off.
-/

namespace SchemaForge

variable {α : Type} [BEq α] [LawfulBEq α]

theorem eraseDups_concat (l : List α) (a : α) [Decidable (a ∈ l)] :
    (l ++ [a]).eraseDups = if a ∈ l then l.eraseDups else l.eraseDups ++ [a] := by
  rw [List.eraseDups_append]
  split <;> rename_i ha
  · simp [List.removeAll, ha]
  · simp [List.removeAll, ha, List.eraseDups_cons]

theorem nodup_eraseDups : ∀ l : List α, l.eraseDups.Nodup
  | [] => List.nodup_nil
  | a :: l => by
    rw [List.eraseDups_cons, List.nodup_cons]
    refine ⟨fun ha => ?_, nodup_eraseDups _⟩
    have hne := List.of_mem_filter (List.mem_eraseDups.mp ha)
    rw [beq_self_eq_true] at hne
    cases hne
  termination_by l => l.length
  decreasing_by exact Nat.lt_succ_of_le (List.length_filter_le _ l)

/-- It does not matter whether elements are taken out before or after the repetitions. -/
theorem eraseDups_filter (p : α → Bool) :
    ∀ l : List α, (l.filter p).eraseDups = l.eraseDups.filter p
  | [] => rfl
  | a :: l => by
    have ih := eraseDups_filter p (l.filter fun b => !(b == a))
    rw [List.eraseDups_cons]
    by_cases ha : p a = true
    · rw [List.filter_cons_of_pos ha, List.filter_cons_of_pos ha, List.eraseDups_cons, ← ih,
        List.filter_comm]
    · -- The element is taken out, so that its repetitions are taken out as well.
      have hothers : (l.filter fun b => !(b == a)).filter p = l.filter p := by
        rw [List.filter_filter]
        refine List.filter_congr fun b _ => ?_
        by_cases hb : b = a
        · simp [hb, ha]
        · simp [hb]
      rw [List.filter_cons_of_neg ha, List.filter_cons_of_neg ha, ← ih, hothers]
  termination_by l => l.length
  decreasing_by exact Nat.lt_succ_of_le (List.length_filter_le _ l)

/-! ## The first few without an element -/

theorem filter_ne_of_notMem {a : α} {l : List α} (h : a ∉ l) :
    (l.filter fun b => !(b == a)) = l := by
  refine List.filter_eq_self.mpr fun b hb => ?_
  have hne : b ≠ a := fun hba => h (hba ▸ hb)
  simpa using hne

/-- An element that is not among them makes no difference. -/
theorem take_filter_of_notMem {a : α} {l : List α} {n : Nat} (h : a ∉ l.take n) :
    (l.filter fun b => !(b == a)).take n = l.take n := by
  induction l generalizing n with
  | nil => rfl
  | cons b l ih =>
    cases n with
    | zero => rfl
    | succ n =>
      rw [List.take_succ_cons, List.mem_cons, not_or] at h
      obtain ⟨hab, h⟩ := h
      have hkept : (!(b == a)) = true := by simpa using Ne.symm hab
      rw [List.filter_cons, if_pos hkept, List.take_succ_cons, List.take_succ_cons, ih h]

/-- An element that is among one more than them gives up its place to the last of these. -/
theorem take_filter_of_mem {a : α} {l : List α} {n : Nat} (hl : l.Nodup) (h : a ∈ l.take (n + 1)) :
    (l.filter fun b => !(b == a)).take n = (l.take (n + 1)).filter fun b => !(b == a) := by
  induction l generalizing n with
  | nil => cases h
  | cons b l ih =>
    obtain ⟨hb, hl⟩ := List.nodup_cons.mp hl
    rw [List.take_succ_cons] at h ⊢
    by_cases hba : b = a
    · subst hba
      have hgone : ¬(!(b == b)) = true := by simp
      rw [List.filter_cons, if_neg hgone, List.filter_cons, if_neg hgone, filter_ne_of_notMem hb,
        filter_ne_of_notMem fun hmem => hb (List.mem_of_mem_take hmem)]
    · have hkept : (!(b == a)) = true := by simpa using hba
      have hrest : a ∈ l.take n := (List.mem_cons.mp h).resolve_left (Ne.symm hba)
      rw [List.filter_cons, if_pos hkept, List.filter_cons, if_pos hkept]
      cases n with
      | zero => cases hrest
      | succ n => rw [List.take_succ_cons, ih hl hrest]

end SchemaForge
