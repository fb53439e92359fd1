import SchemaForge.Compile.Primitives
import SchemaForge.Proofs.Number.Measure

/-!
# Bounds of numbers

A number schema becomes a call for numbers with a chain of modifiers. Each modifier admits some
ratios: `int` the whole numbers, a comparison those on one side of its argument, `multipleOf` the
multiples of its argument. All together admit the ratios that the schema asks for in either
spelling of its exclusive bounds, by a flag beside an ordinary bound or as bounds of their own.
-/

namespace SchemaForge

/-! ## What modifiers admit -/

/-- A ratio is a whole multiple of another one; nothing is a multiple of an infinity. -/
def IsMultiple (m : Measure) (v : ℚ) : Prop :=
  ∃ (q : ℚ) (k : ℤ), m = q ∧ v = k * q

/-- How the argument of a modifier of this name bounds the values that it admits. -/
def restriction? : String → Option (Measure → ℚ → Prop)
  | "gt" => some fun m v => m < v
  | "gte" => some fun m v => m ≤ v
  | "lt" => some fun m v => v < m
  | "lte" => some fun m v => v ≤ m
  | "multipleOf" => some IsMultiple
  | _ => none

/--
The ratios that a modifier admits. A bound that measures nothing admits none, and so does a modifier
without the argument that its name calls for.
-/
inductive Modifier.Admits (v : ℚ) : Modifier → Prop
  | int {n : ℤ} : v = n → Admits v (.mk "int" [])
  | bound {name : String} {R : Measure → ℚ → Prop} {b : Value} {m : Measure} :
    restriction? name = some R → b.measure? = some m → R m v → Admits v (.mk name [.literal b])
  | other {name : String} {args : List Node} :
    name ≠ "int" → restriction? name = none → Admits v (.mk name args)

/-- The ratios that an expression admits: it calls for a number, and all its modifiers admit it. -/
structure Expression.Admits (e : Expression) (v : ℚ) : Prop where
  base : e.base = .call "z.number" []
  modifiers : ∀ m ∈ e.modifiers, m.Admits v

variable {v : ℚ} {e : Expression} {name : String} {R : Measure → ℚ → Prop}

theorem Modifier.admits_int : (Modifier.mk "int" []).Admits v ↔ ∃ n : ℤ, v = n := by
  constructor
  · intro h
    cases h with
    | int hn => exact ⟨_, hn⟩
    | other hname _ => exact absurd rfl hname
  · rintro ⟨n, hn⟩
    exact .int hn

theorem Modifier.admits_bound {b : Value} (hR : restriction? name = some R) :
    (Modifier.mk name [.literal b]).Admits v ↔ ∃ m ∈ b.measure?, R m v := by
  constructor
  · intro h
    cases h with
    | bound hR' hm hv =>
      cases hR.symm.trans hR'
      exact ⟨_, hm, hv⟩
    | other _ hnone =>
      rw [hR] at hnone
      cases hnone
  · rintro ⟨m, hm, hv⟩
    exact .bound hR hm hv

namespace Expression

theorem admits_number : (zod "number" []).Admits v :=
  ⟨rfl, fun _ hm => nomatch hm⟩

theorem admits_andThen {args : List Node} :
    (e.andThen name args).Admits v ↔ e.Admits v ∧ (Modifier.mk name args).Admits v := by
  constructor
  · rintro ⟨hbase, hall⟩
    exact ⟨⟨hbase, fun m hm => hall m (List.mem_append_left _ hm)⟩,
      hall _ (List.mem_append_right _ List.mem_cons_self)⟩
  · rintro ⟨⟨hbase, hall⟩, hlast⟩
    refine ⟨hbase, fun m hm => ?_⟩
    rcases List.mem_append.mp hm with hm | hm
    · exact hall m hm
    · cases List.mem_singleton.mp hm
      exact hlast

theorem admits_describe (description : Value) (asked : Bool) :
    (e.describe description asked).Admits v ↔ e.Admits v := by
  unfold describe
  split
  · split
    · rw [admits_andThen]
      exact and_iff_left (.other (by decide) rfl)
    · exact Iff.rfl
  · exact Iff.rfl

end Expression

/-! ## What schemas ask -/

/-- What a bound asks of a ratio; what is no number asks nothing. -/
def Value.Asks (b : Value) (R : Measure → ℚ → Prop) (v : ℚ) : Prop :=
  b.isNumber = true → ∃ m ∈ b.measure?, R m v

/-- A ratio has all that a number schema asks for. -/
structure Fields.Bounds (schema : Fields) (isInteger : Bool) (v : ℚ) : Prop where
  integer : isInteger = true → ∃ n : ℤ, v = n
  minimum : (schema.value "minimum").Asks
    (fun m v => if schema.value "exclusiveMinimum" = .bool true then m < v else m ≤ v) v
  exclusiveMinimum : (schema.value "exclusiveMinimum").Asks (fun m v => m < v) v
  maximum : (schema.value "maximum").Asks
    (fun m v => if schema.value "exclusiveMaximum" = .bool true then v < m else v ≤ m) v
  exclusiveMaximum : (schema.value "exclusiveMaximum").Asks (fun m v => v < m) v
  multipleOf : (schema.value "multipleOf").Asks IsMultiple v

namespace Compile

/-- **A bound restricts what an expression admits by what it asks.** -/
theorem admits_bound {b : Value} (hR : restriction? name = some R) :
    (bound name b e).Admits v ↔ e.Admits v ∧ b.Asks R v := by
  unfold bound Value.Asks
  split
  · rename_i hnumber
    rw [Expression.admits_andThen, Modifier.admits_bound hR, forall_prop_of_true hnumber]
  · rename_i hother
    exact (and_iff_left fun hnumber => absurd hnumber hother).symm

/-- The flag beside a bound chooses between the strict restriction and the other one. -/
theorem restriction?_ite (flag : Value) {strict weak : String} {S W : Measure → ℚ → Prop}
    (hS : restriction? strict = some S) (hW : restriction? weak = some W) :
    restriction? (if flag == .bool true then strict else weak) =
      some fun m v => if flag = .bool true then S m v else W m v := by
  by_cases h : flag = .bool true
  · simp [h, hS]
  · simp [h, hW]

/-- **The expression of a number schema admits exactly the ratios within its bounds.** -/
theorem admits_compileNumber_iff (env : Environment) (schema : Fields) (isInteger : Bool) (v : ℚ) :
    (compileNumber env schema isInteger).Admits v ↔ schema.Bounds isInteger v := by
  have hinteger : (if isInteger then (zod "number" []).andThen "int" [] else zod "number" []).Admits
      v ↔ (isInteger = true → ∃ n : ℤ, v = n) := by
    cases isInteger with
    | true =>
      rw [if_pos rfl, Expression.admits_andThen, Modifier.admits_int, forall_prop_of_true rfl]
      exact and_iff_right Expression.admits_number
    | false => exact iff_of_true Expression.admits_number (fun h => nomatch h)
  unfold compileNumber
  dsimp only
  rw [Expression.admits_describe, admits_bound rfl, admits_bound rfl,
    admits_bound (restriction?_ite _ rfl rfl), admits_bound rfl,
    admits_bound (restriction?_ite _ rfl rfl), hinteger]
  constructor
  · rintro ⟨⟨⟨⟨⟨hint, hmin⟩, hlow⟩, hmax⟩, hhigh⟩, hmultiple⟩
    exact ⟨hint, hmin, hlow, hmax, hhigh, hmultiple⟩
  · rintro ⟨hint, hmin, hlow, hmax, hhigh, hmultiple⟩
    exact ⟨⟨⟨⟨⟨hint, hmin⟩, hlow⟩, hmax⟩, hhigh⟩, hmultiple⟩

end Compile

end SchemaForge
