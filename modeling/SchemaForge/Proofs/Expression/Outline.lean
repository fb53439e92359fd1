import SchemaForge.Expression.Printer

/-!
# Outlines of expressions

The outline of an expression is what is left of it if all arguments are dropped: the kind of its
base, with the constructor that it calls, and the names of its modifiers. All that compilation asks
of an expression it has compiled can be read off the outline.
-/

namespace SchemaForge

/-- The kind of a base. -/
inductive Head where
  | call (callee : String)
  | name
  | deferred
  | other
deriving DecidableEq, Repr

def Node.head : Node → Head
  | .call callee _ => .call callee
  | .identifier _ => .name
  | .deferred _ _ => .deferred
  | _ => .other

/-- The kind of a base and the names of the modifiers after it. -/
structure Outline where
  head : Head
  names : List String
deriving DecidableEq, Repr

namespace Expression

def outline (e : Expression) : Outline := ⟨e.base.head, e.modifierNames⟩

variable {e e' : Expression}

@[simp] theorem outline_zod (name : String) (args : List Node) :
    (zod name args).outline = ⟨.call ("z." ++ name), []⟩ := rfl

/-- A call adds its name and no more; the arguments do not count. -/
@[simp] theorem outline_andThen (e : Expression) (name : String) (args : List Node) :
    (e.andThen name args).outline = ⟨e.outline.head, e.outline.names ++ [name]⟩ := by
  simp [outline]

/-! ## What an outline shows -/

theorem callee_congr (h : e.outline = e'.outline) : e.callee = e'.callee := by
  have hcallee : ∀ e : Expression, e.callee =
      match e.outline.head with
      | .call callee => some callee
      | _ => none := by
    intro e
    unfold callee outline Node.head
    cases e.base <;> rfl
  rw [hcallee, hcallee, h]

/-- Whether a call is in the chain is read off the outline. -/
theorem hasModifier_eq (e : Expression) (name : String) :
    e.hasModifier name = e.outline.names.contains name := by
  simp only [hasModifier, outline, modifierNames]
  induction e.modifiers with
  | nil => rfl
  | cons m ms ih =>
    rw [List.any_cons, List.map_cons, List.contains_cons, ih, BEq.comm]

theorem hasModifier_congr (h : e.outline = e'.outline) (name : String) :
    e.hasModifier name = e'.hasModifier name := by
  rw [hasModifier_eq, hasModifier_eq, h]

/-- So is whether the chain ends in a call that lets null pass. -/
theorem isNullable_iff (e : Expression) :
    e.isNullable = true ↔ e.outline.names.getLast? = some "nullable" := by
  simp only [isNullable, outline, modifierNames, List.getLast?_map]
  cases e.modifiers.getLast? <;> simp

theorem isNullable_congr (h : e.outline = e'.outline) : e.isNullable = e'.isNullable := by
  rw [Bool.eq_iff_iff, isNullable_iff, isNullable_iff, h]

/-- A bare name is an outline without calls. -/
theorem isBareName_iff (e : Expression) :
    e.isBareName = true ↔ e.outline = ⟨.name, []⟩ := by
  unfold isBareName outline Node.head modifierNames
  cases e.base <;> simp

theorem isBareName_congr (h : e.outline = e'.outline) : e.isBareName = e'.isBareName := by
  rw [Bool.eq_iff_iff, isBareName_iff, isBareName_iff, h]

/-- A shape is exposed by everything but a deferred reference. -/
theorem exposesShape_iff (e : Expression) :
    e.exposesShape = true ↔ e.outline.head ≠ .deferred := by
  unfold exposesShape outline Node.head
  cases e.base <;> simp

theorem exposesShape_congr (h : e.outline = e'.outline) : e.exposesShape = e'.exposesShape := by
  rw [Bool.eq_iff_iff, exposesShape_iff, exposesShape_iff, h]

/-! ## Equal outlines -/

/-- The same call on two expressions of one outline, with any arguments. -/
theorem outline_andThen_congr (h : e.outline = e'.outline) (name : String) (args args' : List Node) :
    (e.andThen name args).outline = (e'.andThen name args').outline := by
  rw [outline_andThen, outline_andThen, h]

theorem outline_nullableIf_congr (h : e.outline = e'.outline) (nullable : Bool) :
    (e.nullableIf nullable).outline = (e'.nullableIf nullable).outline := by
  cases nullable with
  | true => exact outline_andThen_congr h _ _ _
  | false => exact h

/-- A description is a call like others, made on both or on none. -/
theorem outline_describe_congr (h : e.outline = e'.outline) (description : Value) (asked : Bool) :
    (e.describe description asked).outline = (e'.describe description asked).outline := by
  unfold describe
  split
  · split
    · exact outline_andThen_congr h _ _ _
    · exact h
  · exact h

/-- Taking the last call away takes it off both outlines. -/
theorem outline_dropLast_congr (h : e.outline = e'.outline) :
    (⟨e.base, e.modifiers.dropLast⟩ : Expression).outline =
      (⟨e'.base, e'.modifiers.dropLast⟩ : Expression).outline := by
  have hdrop : ∀ e : Expression, (⟨e.base, e.modifiers.dropLast⟩ : Expression).outline =
      ⟨e.outline.head, e.outline.names.dropLast⟩ := by
    intro e
    simp [outline, modifierNames, List.map_dropLast]
  rw [hdrop, hdrop, h]

end Expression

end SchemaForge
