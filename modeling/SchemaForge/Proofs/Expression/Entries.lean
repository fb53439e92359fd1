import Mathlib.Data.List.Forall2
import SchemaForge.Proofs.Document.Distinct
import SchemaForge.Proofs.Expression.Outline

/-!
# Entries of extended shapes

A chain may be made with a shape and extended by others. Its entries are those of all of these, and a
later entry takes the place of an earlier one of the same name. Only what extends a chain adds to its
entries, so all other modifiers can be left aside.
-/

namespace SchemaForge

/-- The properties that a node spells out. -/
def Node.entries : Node → List Property
  | .shape properties => properties
  | _ => []

/-- The properties that a modifier adds. -/
def Modifier.added : Modifier → List Property
  | .mk "extend" [n] => n.entries
  | _ => []

/-- What the last property of a name holds. -/
def Property.last? (n : Scalar) : List Property → Option Node
  | [] => none
  | p :: ps => (last? n ps).or (if p.name.same n then some p.value else none)

namespace Property

variable {n k : Scalar}

/-- Later entries come before earlier ones. -/
theorem last?_append (n : Scalar) : ∀ ps qs : List Property,
    last? n (ps ++ qs) = (last? n qs).or (last? n ps)
  | [], qs => (Option.or_none).symm
  | p :: ps, qs => by rw [List.cons_append, last?, last?_append n ps qs, last?, Option.or_assoc]

theorem mem_of_last? {node : Node} : ∀ {ps : List Property}, last? n ps = some node →
    ∃ p ∈ ps, p.name.same n = true ∧ p.value = node
  | [], h => nomatch h
  | p :: ps, h => by
    rw [last?] at h
    rcases Option.or_eq_some_iff.mp h with h | ⟨-, h⟩
    · obtain ⟨q, hq, hsame⟩ := mem_of_last? h
      exact ⟨q, List.mem_cons_of_mem _ hq, hsame⟩
    · split at h
      · rename_i hname
        cases h
        exact ⟨p, List.mem_cons_self, hname, rfl⟩
      · cases h

/-- **What is made of fields with different names is found by their names.** -/
theorem last?_of_forall₂ {P : Scalar × Value → Node → Prop} {fields : Fields} {ps : List Property}
    (hdistinct : fields.Pairwise fun f g => f.1.same g.1 = false)
    (h : List.Forall₂ (fun f p => p.name = f.1 ∧ P f p.value) fields ps) (n : Scalar) :
    (Fields.lookup n fields = none ∧ last? n ps = none) ∨
      ∃ k v node, (k, v) ∈ fields ∧ k.same n = true ∧ Fields.lookup n fields = some v ∧
        last? n ps = some node ∧ P (k, v) node := by
  induction h with
  | nil => exact Or.inl ⟨rfl, rfl⟩
  | @cons f p fields ps hp _ ih =>
    obtain ⟨k, v⟩ := f
    obtain ⟨hname, hvalue⟩ := hp
    obtain ⟨hfirst, hrest⟩ := List.pairwise_cons.mp hdistinct
    rw [Fields.lookup, last?, hname]
    cases hk : k.same n with
    | false =>
      rw [if_neg (by simp), if_neg (by simp), Option.or_none]
      rcases ih hrest with hnone | ⟨k', v', node, hmem, hsame, hlookup, hlast, hP⟩
      · exact Or.inl hnone
      · exact Or.inr ⟨k', v', node, List.mem_cons_of_mem _ hmem, hsame, hlookup, hlast, hP⟩
    | true =>
      rw [if_pos rfl, if_pos rfl]
      rcases ih hrest with ⟨-, hlast⟩ | ⟨k', v', node, hmem, hsame, -, -, -⟩
      · exact Or.inr ⟨k, v, p.value, List.mem_cons_self, hk, rfl, by rw [hlast]; rfl, hvalue⟩
      · -- two fields would have the same name
        have hkk : k.same k' = true := Scalar.same_trans hk (Scalar.same_symm hsame)
        rw [hfirst _ hmem] at hkk
        cases hkk

end Property

namespace Expression

variable {e e' : Expression}

/-- The properties of the shape that a chain is made with. -/
def shapeEntries (base : Node) : List Property :=
  match base with
  | .call _ [n] => n.entries
  | _ => []

/-- The properties of a chain: those of the shape it is made with, and those it is extended by. -/
def entries (e : Expression) : List Property :=
  shapeEntries e.base ++ e.modifiers.flatMap Modifier.added

/-- What a chain holds under a name: of several properties the last one counts. -/
def held? (e : Expression) (n : Scalar) : Option Node := Property.last? n e.entries

theorem added_of_ne {name : String} (h : name ≠ "extend") (args : List Node) :
    (Modifier.mk name args).added = [] := by
  unfold Modifier.added
  split
  · rename_i heq
    cases heq
    exact absurd rfl h
  · rfl

/-- Only extensions add to the entries. -/
theorem entries_append (base : Node) (ms ms' : List Modifier) :
    entries ⟨base, ms ++ ms'⟩ = entries ⟨base, ms⟩ ++ ms'.flatMap Modifier.added := by
  simp [entries]

/-- Calls of other names add no entries. -/
theorem entries_andThen {name : String} (h : name ≠ "extend") (e : Expression) (args : List Node) :
    (e.andThen name args).entries = e.entries := by
  rw [andThen, entries_append, List.flatMap_singleton, added_of_ne h, List.append_nil]

/-- A chain extended by shapes, one after another. -/
def extendedBy (e : Expression) (shapes : List (List Property)) : Expression :=
  ⟨e.base, e.modifiers ++ shapes.map fun ps => .mk "extend" [.shape ps]⟩

theorem extendedBy_nil (e : Expression) : e.extendedBy [] = e := by
  rw [extendedBy, List.map_nil, List.append_nil]

theorem extendedBy_append (e : Expression) (shapes more : List (List Property)) :
    e.extendedBy (shapes ++ more) = (e.extendedBy shapes).extendedBy more := by
  simp only [extendedBy, List.map_append, List.append_assoc]

/-- Each shape adds its properties. -/
theorem entries_extendedBy (e : Expression) (shapes : List (List Property)) :
    (e.extendedBy shapes).entries = e.entries ++ shapes.flatten := by
  have hadded : (shapes.map fun ps => Modifier.mk "extend" [.shape ps]).flatMap Modifier.added =
      shapes.flatten := by
    rw [List.flatMap_map]
    exact List.flatMap_id
  rw [extendedBy, entries_append, hadded]

theorem entries_nullableIf (e : Expression) (nullable : Bool) :
    (e.nullableIf nullable).entries = e.entries := by
  cases nullable with
  | true => exact entries_andThen (by decide) e []
  | false => rfl

/-- Rules at the end of a chain add no entries. -/
theorem entries_rules {ms : List Modifier} (h : ∀ m ∈ ms, m.name ≠ "extend") :
    entries ⟨e.base, e.modifiers ++ ms⟩ = e.entries := by
  rw [entries_append, List.flatMap_eq_nil_iff.mpr, List.append_nil]
  intro m hm
  obtain ⟨name, args⟩ := m
  exact added_of_ne (h _ hm) args

/-- Taking off a final `nullable` leaves the entries. -/
theorem entries_dropNullable (h : e.isNullable = true) :
    entries ⟨e.base, e.modifiers.dropLast⟩ = e.entries := by
  obtain ⟨m, hm, hname⟩ : ∃ m, e.modifiers.getLast? = some m ∧ m.name = "nullable" := by
    unfold isNullable at h
    split at h
    · exact ⟨_, ‹_›, by simpa using h⟩
    · cases h
  have hsplit : e.modifiers.dropLast ++ [m] = e.modifiers := List.dropLast_append_getLast? m hm
  calc entries ⟨e.base, e.modifiers.dropLast⟩
      = entries ⟨e.base, e.modifiers.dropLast ++ [m]⟩ := by
        refine (entries_rules (e := ⟨e.base, e.modifiers.dropLast⟩) ?_).symm
        rw [List.forall_mem_singleton, hname]
        decide
    _ = e.entries := by rw [hsplit]

/-- What is held under a name is a matter of the entries alone. -/
theorem held?_of_entries (h : e'.entries = e.entries) (n : Scalar) : e'.held? n = e.held? n := by
  rw [held?, held?, h]

/-! ## Chains that are spelled out -/

/-- All that a chain holds is spelled out in it: it is made by a call, with a shape or without one,
and extended by shapes, and nothing is left out of it or intersected with it. -/
structure SpelledOut (e : Expression) : Prop where
  base : ∃ callee args, e.base = .call callee args ∧ ∀ n, args = [n] → ∃ ps, n = .shape ps
  modifiers : ∀ m ∈ e.modifiers, m.name ∉ ["omit", "and"] ∧
    (m.name = "extend" → ∃ ps, m.args = [.shape ps])

namespace SpelledOut

theorem call {name : String} {args : List Node} (h : ∀ n, args = [n] → ∃ ps, n = .shape ps) :
    SpelledOut ⟨.call name args, []⟩ :=
  ⟨⟨name, args, rfl, h⟩, nofun⟩

/-- Calls at the end of a chain, of which those that extend it do so by shapes. -/
theorem append (h : e.SpelledOut) {ms : List Modifier}
    (hms : ∀ m ∈ ms, m.name ∉ ["omit", "and"] ∧ (m.name = "extend" → ∃ ps, m.args = [.shape ps])) :
    SpelledOut ⟨e.base, e.modifiers ++ ms⟩ := by
  refine ⟨h.base, fun m hm => ?_⟩
  rcases List.mem_append.mp hm with hm | hm
  · exact h.modifiers m hm
  · exact hms m hm

/-- One more call. -/
theorem andThen (h : e.SpelledOut) {name : String} (hname : name ∉ ["extend", "omit", "and"])
    (args : List Node) : (e.andThen name args).SpelledOut := by
  refine h.append (List.forall_mem_singleton.mpr ⟨fun hmem => hname (.tail _ hmem), ?_⟩)
  rintro rfl
  exact absurd List.mem_cons_self hname

/-- Extending by shapes keeps a chain spelled out. -/
theorem extendedBy (h : e.SpelledOut) (shapes : List (List Property)) :
    (e.extendedBy shapes).SpelledOut :=
  h.append (List.forall_mem_map.mpr fun ps _ => ⟨by simp [Modifier.name], fun _ => ⟨ps, rfl⟩⟩)

theorem dropLast (h : e.SpelledOut) : SpelledOut ⟨e.base, e.modifiers.dropLast⟩ :=
  ⟨h.base, fun m hm => h.modifiers m (List.dropLast_subset _ hm)⟩

/-- What is spelled out exposes its shape. -/
theorem exposesShape (h : e.SpelledOut) : e.exposesShape = true := by
  obtain ⟨callee, args, hbase, -⟩ := h.base
  rw [Expression.exposesShape, hbase]

end SpelledOut

/-! ## Definite chains -/

/-- A chain that is nowhere made optional. -/
def Definite (e : Expression) : Prop := e.hasModifier "optional" = false

namespace Definite

theorem base (n : Node) : Definite ⟨n, []⟩ := rfl

theorem append (h : e.Definite) {ms : List Modifier} (hms : ∀ m ∈ ms, m.name ≠ "optional") :
    Definite ⟨e.base, e.modifiers ++ ms⟩ := by
  unfold Definite hasModifier at h ⊢
  rw [List.any_append, h, Bool.false_or, List.any_eq_false]
  simpa using hms

theorem andThen (h : e.Definite) {name : String} (hname : name ≠ "optional") (args : List Node) :
    (e.andThen name args).Definite :=
  h.append (List.forall_mem_singleton.mpr hname)

theorem dropLast (h : e.Definite) : Definite ⟨e.base, e.modifiers.dropLast⟩ := by
  unfold Definite hasModifier at h ⊢
  rw [List.any_eq_false] at h ⊢
  exact fun m hm => h m (List.dropLast_subset _ hm)

end Definite

end Expression

end SchemaForge
