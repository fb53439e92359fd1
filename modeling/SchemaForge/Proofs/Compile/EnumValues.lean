import SchemaForge.Compile.Primitives
import SchemaForge.Proofs.Number.Measure

/-!
# Values of enums inside other schemas

The expression of such an enum takes one of three forms, by the kinds of all its values. Texts and
literals accept the listed values only, whatever the list mixes or repeats. The form for truth
values accepts both of them, and is taken for every list of truth values, so it is too wide for a
list that holds only one of the two.
-/

namespace SchemaForge

namespace Scalar

/-- The scalars that JSON knows: days, moments and numbers without a finite value are none. -/
def IsJson : Scalar → Prop
  | .null | .bool _ | .int _ | .text _ | .float (.finite ..) => True
  | _ => False

/-- Equality of JSON scalars: of one kind, and numbers by what they measure. -/
inductive JsonEqual : Scalar → Scalar → Prop
  | null : JsonEqual .null .null
  | bool (b : Bool) : JsonEqual (.bool b) (.bool b)
  | text (s : String) : JsonEqual (.text s) (.text s)
  | number {a b : Scalar} {m : Measure} :
    a.measure? = some m → b.measure? = some m → JsonEqual a b

theorem jsonEqual_refl {w : Scalar} (h : w.IsJson) : w.JsonEqual w := by
  cases w with
  | null => exact .null
  | bool b => exact .bool b
  | text s => exact .text s
  | int n => exact .number rfl rfl
  | float x =>
    cases x with
    | finite => exact .number rfl rfl
    | _ => exact h.elim
  | _ => exact h.elim

theorem jsonEqual_bool_left {b : Bool} {v : Scalar} : (bool b).JsonEqual v ↔ v = .bool b := by
  constructor
  · intro h
    cases h with
    | bool => rfl
    | number h _ => cases h
  · rintro rfl
    exact .bool b

theorem jsonEqual_text_left {s : String} {v : Scalar} : (text s).JsonEqual v ↔ v = .text s := by
  constructor
  · intro h
    cases h with
    | text => rfl
    | number h _ => cases h
  · rintro rfl
    exact .text s

/-- **The literal of a JSON scalar is the JSON text of an equal one**: a double that is whole is
written as the whole number. -/
theorem exists_literal_eq {w : Scalar} (h : w.IsJson) : ∃ u : Scalar, u.IsJson ∧ w.JsonEqual u ∧
    Literal.value (.scalar w) = Json.writeScalar Json.literal u := by
  cases w with
  | float x =>
    cases hx : x.toInt? with
    | none => exact ⟨.float x, h, jsonEqual_refl h, by simp [Literal.value, hx, Json.writeScalar]⟩
    | some n =>
      refine ⟨.int n, trivial, .number (Double.measure?_of_toInt? hx) rfl, ?_⟩
      simp [Literal.value, hx, Json.writeScalar]
  | _ => exact ⟨_, h, jsonEqual_refl h, rfl⟩

end Scalar

/-! ## What the forms accept -/

/-- The scalars that an expression accepts, for the forms that an enum takes. -/
inductive Expression.Accepts : Expression → Scalar → Prop
  | boolean (b : Bool) : Accepts (zod "boolean" []) (.bool b)
  | enum {items : List Node} {s : String} :
    .literal (.text s) ∈ items → Accepts (zod "enum" [.array items]) (.text s)
  | literal {w v : Scalar} : w.JsonEqual v → Accepts (zod "literal" [.literal (.scalar w)]) v
  | union {branches : List Node} {e : Expression} {v : Scalar} :
    e.toNode ∈ branches → Accepts e v → Accepts (zod "union" [.array branches]) v

namespace Expression

variable {v w : Scalar} {items branches : List Node}

theorem accepts_boolean : (zod "boolean" []).Accepts v ↔ ∃ b, v = .bool b := by
  constructor
  · intro h
    generalize he : zod "boolean" [] = e at h
    cases h with
    | boolean b => exact ⟨b, rfl⟩
    | _ => simp [zod] at he
  · rintro ⟨b, rfl⟩
    exact .boolean b

/-- An enum accepts its texts. -/
theorem accepts_enum : (zod "enum" [.array items]).Accepts v ↔
    ∃ s, .literal (.text s) ∈ items ∧ v = .text s := by
  constructor
  · intro h
    generalize he : zod "enum" [.array items] = e at h
    cases h with
    | enum hs =>
      simp only [zod, Expression.mk.injEq, Node.call.injEq, List.cons.injEq, Node.array.injEq] at he
      obtain ⟨⟨-, rfl, -⟩, -⟩ := he
      exact ⟨_, hs, rfl⟩
    | _ => simp [zod] at he
  · rintro ⟨s, hs, rfl⟩
    exact .enum hs

/-- A literal accepts what is equal to it, numbers by their value. -/
theorem accepts_literal : (zod "literal" [.literal (.scalar w)]).Accepts v ↔ w.JsonEqual v := by
  constructor
  · intro h
    generalize he : zod "literal" [.literal (.scalar w)] = e at h
    cases h with
    | literal hw =>
      simp only [zod, Expression.mk.injEq, Node.call.injEq, List.cons.injEq, Node.literal.injEq,
        Value.scalar.injEq] at he
      obtain ⟨⟨-, rfl, -⟩, -⟩ := he
      exact hw
    | _ => simp [zod] at he
  · exact .literal

/-- A union accepts what one of its branches does. -/
theorem accepts_union : (zod "union" [.array branches]).Accepts v ↔
    ∃ e : Expression, e.toNode ∈ branches ∧ e.Accepts v := by
  constructor
  · intro h
    generalize he : zod "union" [.array branches] = e at h
    cases h with
    | union hmem hv =>
      simp only [zod, Expression.mk.injEq, Node.call.injEq, List.cons.injEq, Node.array.injEq] at he
      obtain ⟨⟨-, rfl, -⟩, -⟩ := he
      exact ⟨_, hmem, hv⟩
    | _ => simp [zod] at he
  · rintro ⟨e, hmem, hv⟩
    exact .union hmem hv

end Expression

/-! ## Enums -/

namespace Compile

variable {values : List Scalar} {v : Scalar}

/-- A list of scalars has one that equals the given one. -/
def Listed (values : List Scalar) (v : Scalar) : Prop := ∃ w ∈ values, w.JsonEqual v

theorem isBool_iff {w : Scalar} : (Value.scalar w).isBool = true ↔ ∃ b, w = .bool b := by
  cases w <;> simp [Value.isBool]

theorem isText_iff {w : Scalar} : (Value.scalar w).isText = true ↔ ∃ s, w = .text s := by
  cases w <;> simp [Value.isText]

/-- **An enum of texts accepts the listed values.** -/
theorem accepts_texts (htexts : ∀ w ∈ values, ∃ s, w = .text s) :
    (zod "enum" [.array ((values.map Value.scalar).map Node.literal)]).Accepts v ↔
      Listed values v := by
  rw [Expression.accepts_enum]
  constructor
  · rintro ⟨s, hs, rfl⟩
    exact ⟨.text s, by simpa using hs, .text s⟩
  · rintro ⟨w, hw, heq⟩
    obtain ⟨s, rfl⟩ := htexts w hw
    exact ⟨s, by simpa using hw, Scalar.jsonEqual_text_left.mp heq⟩

/-- **So does a union of literals.** -/
theorem accepts_literals :
    (zod "union" [.array ((values.map Value.scalar).map
      fun w => (zod "literal" [.literal w]).toNode)]).Accepts v ↔ Listed values v := by
  rw [Expression.accepts_union]
  constructor
  · rintro ⟨e, he, hv⟩
    rw [List.map_map, List.mem_map] at he
    obtain ⟨w, hw, hnode⟩ := he
    obtain rfl : zod "literal" [.literal (.scalar w)] = e := congrArg Expression.ofNode hnode
    exact ⟨w, hw, Expression.accepts_literal.mp hv⟩
  · rintro ⟨w, hw, heq⟩
    refine ⟨zod "literal" [.literal (.scalar w)], ?_, Expression.accepts_literal.mpr heq⟩
    rw [List.map_map]
    exact List.mem_map.mpr ⟨w, hw, rfl⟩

/-- **An enum accepts its values, and both truth values if it lists nothing else.** -/
theorem accepts_compileEnum_iff (hne : values ≠ []) :
    (compileEnum (values.map .scalar)).Accepts v ↔
      Listed values v ∨ (∀ w ∈ values, ∃ b, w = .bool b) ∧ ∃ b, v = .bool b := by
  obtain ⟨first, hfirst⟩ := List.exists_mem_of_ne_nil values hne
  unfold compileEnum
  split
  · rename_i hall
    have hbools : ∀ w ∈ values, ∃ b, w = .bool b := by
      simpa [hne, isBool_iff] using hall
    rw [Expression.accepts_boolean]
    refine ⟨fun hv => .inr ⟨hbools, hv⟩, ?_⟩
    rintro (⟨w, hw, heq⟩ | ⟨-, hv⟩)
    · obtain ⟨b, rfl⟩ := hbools w hw
      exact ⟨b, Scalar.jsonEqual_bool_left.mp heq⟩
    · exact hv
  · rename_i hnot
    have hmixed : ¬ ∀ w ∈ values, ∃ b, w = .bool b := fun hbools =>
      hnot (by simpa [hne, isBool_iff] using hbools)
    rw [or_iff_left fun h => hmixed h.1]
    split
    · rename_i hall
      exact accepts_texts (by simpa [isText_iff] using hall)
    · exact accepts_literals

/--
**An enum accepts exactly its values if and only if they are not one truth value.** Its literals are
written as JSON texts of scalars equal to the values.
-/
theorem accepts_exactly_iff {values : List Scalar} (hne : values ≠ [])
    (hjson : ∀ w ∈ values, w.IsJson) :
    ((∀ v : Scalar, v.IsJson → ((compileEnum (values.map .scalar)).Accepts v ↔ Listed values v)) ↔
      ¬ ∃ b, ∀ w ∈ values, w = .bool b) ∧
    ∀ w ∈ values, ∃ u : Scalar, u.IsJson ∧ w.JsonEqual u ∧
      Literal.value (.scalar w) = Json.writeScalar Json.literal u := by
  refine ⟨⟨?_, ?_⟩, fun w hw => Scalar.exists_literal_eq (hjson w hw)⟩
  · rintro hexact ⟨b, hb⟩
    have haccepts : (compileEnum (values.map .scalar)).Accepts (.bool !b) :=
      (accepts_compileEnum_iff hne).mpr (.inr ⟨fun w hw => ⟨b, hb w hw⟩, !b, rfl⟩)
    obtain ⟨w, hw, heq⟩ := (hexact (.bool !b) trivial).mp haccepts
    rw [hb w hw, Scalar.jsonEqual_bool_left] at heq
    cases b <;> cases heq
  · intro hnot v _
    rw [accepts_compileEnum_iff hne]
    refine or_iff_left_of_imp ?_
    rintro ⟨hbools, b, rfl⟩
    -- not all of them are the other truth value, so one of them is this one
    by_contra hmissing
    refine hnot ⟨!b, fun w hw => ?_⟩
    obtain ⟨c, rfl⟩ := hbools w hw
    by_cases hc : c = b
    · exact absurd ⟨.bool c, hw, hc ▸ .bool c⟩ hmissing
    · rw [Bool.eq_not_of_ne hc]

/-- Values of all kinds, the number one in both notations. -/
def assortedScalars : List Scalar :=
  [.int 1, .float (.finite false 1 0), .bool true, .text "a", .null]

theorem accepts_exactly_iff_assorted :
    assortedScalars ≠ [] ∧ (∀ w ∈ assortedScalars, w.IsJson) ∧
      ∀ v : Scalar, v.IsJson →
        ((compileEnum (assortedScalars.map .scalar)).Accepts v ↔ Listed assortedScalars v) := by
  have hne : assortedScalars ≠ [] := List.cons_ne_nil _ _
  have hjson : ∀ w ∈ assortedScalars, w.IsJson := by simp [assortedScalars, Scalar.IsJson]
  refine ⟨hne, hjson, (accepts_exactly_iff hne hjson).1.mpr ?_⟩
  rintro ⟨b, hb⟩
  cases hb (.int 1) List.mem_cons_self

/-- The list of the one value `true`: `false` is accepted too. -/
theorem accepts_false_unlisted :
    (compileEnum [.bool true]).Accepts (.bool false) ∧ ¬ Listed [.bool true] (.bool false) := by
  refine ⟨.boolean false, ?_⟩
  rintro ⟨w, hw, heq⟩
  cases List.mem_singleton.mp hw
  cases Scalar.jsonEqual_bool_left.mp heq

end Compile

end SchemaForge
