import SchemaForge.Expression.Basic

/-!
# Expressions with refinements

Refinements are checks that follow a constructor. They change neither the constructor nor what the
other calls of a chain say.
-/

namespace SchemaForge.Expression

/-- An expression is another one with refinements. -/
def RefinedTo (e x : Expression) : Prop :=
  ∃ ms, x = ⟨e.base, e.modifiers ++ ms⟩ ∧ ∀ m ∈ ms, m.name ∈ ["refine", "superRefine"]

namespace RefinedTo

variable {e x y : Expression} {name : String}

theorem refl (e : Expression) : RefinedTo e e := ⟨[], by rw [List.append_nil], nofun⟩

theorem trans (h : RefinedTo e x) (h' : RefinedTo x y) : RefinedTo e y := by
  obtain ⟨ms, rfl, hms⟩ := h
  obtain ⟨ms', rfl, hms'⟩ := h'
  refine ⟨ms ++ ms', by rw [List.append_assoc], fun m hm => ?_⟩
  exact (List.mem_append.mp hm).elim (hms m) (hms' m)

/-- One more refinement. -/
theorem call (h : name ∈ ["refine", "superRefine"]) (e : Expression) (args : List Node) :
    RefinedTo e (e.andThen name args) :=
  ⟨_, rfl, fun m hm => by rwa [List.mem_singleton.mp hm]⟩

theorem ite {c : Prop} [Decidable c] (h : RefinedTo e x) (h' : RefinedTo e y) :
    RefinedTo e (if c then x else y) := by
  split
  · exact h
  · exact h'

/-- Refinements leave the constructor, so what is asked of it has the same answer. -/
theorem callee (h : RefinedTo e x) : x.callee = e.callee := by
  obtain ⟨ms, rfl, -⟩ := h
  rfl

/-- A call that is no refinement was there before. -/
theorem mem_iff {m : Modifier} (h : RefinedTo e x) (hm : m.name ∉ ["refine", "superRefine"]) :
    m ∈ x.modifiers ↔ m ∈ e.modifiers := by
  obtain ⟨ms, rfl, hms⟩ := h
  rw [List.mem_append, or_iff_left]
  exact fun hmem => hm (hms m hmem)

/-- Other calls are in the chain if they were there before. -/
theorem hasModifier (h : RefinedTo e x) (hname : name ∉ ["refine", "superRefine"]) :
    x.hasModifier name = e.hasModifier name := by
  rw [Bool.eq_iff_iff, Expression.hasModifier, Expression.hasModifier, List.any_eq_true,
    List.any_eq_true]
  refine exists_congr fun m => and_congr_left fun hm => h.mem_iff ?_
  rwa [beq_iff_eq.mp hm]

end RefinedTo

end SchemaForge.Expression
