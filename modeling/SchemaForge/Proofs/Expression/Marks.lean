import Mathlib.Data.List.Basic
import Mathlib.Data.Set.Insert
import SchemaForge.Expression.Printer

/-!
# Marks of expressions

What a tree says of other schemas and of properties: the constants that it names, whether their
lookup is deferred or not, and the properties that its shapes declare. A mark is found by walking
over the tree, and program text has none.

How marks go through the builders of expressions is a simplification set. A chain loses its last
modifier only if that is a `nullable`, which has no arguments, so no mark gets lost with it.
-/

namespace SchemaForge

/-! ## Nodes below a node -/

namespace Node

variable {m : Node}

/-- A walk through some nodes meets what the walk through one of them meets. -/
theorem mem_walkAll {ns : List Node} : m ∈ Node.walkAll ns ↔ ∃ n ∈ ns, m ∈ n.walk := by
  induction ns with
  | nil => simp [Node.walkAll]
  | cons n ns ih => simp [Node.walkAll, ih]

theorem mem_walkAll_properties {ps : List Property} :
    m ∈ Property.walkAll ps ↔ ∃ p ∈ ps, m ∈ p.value.walk := by
  induction ps with
  | nil => simp [Property.walkAll]
  | cons p ps ih =>
    cases p with
    | mk name value comment => simp [Property.walkAll, Property.value, ih]

theorem mem_walkAll_parts {ps : List Part} :
    m ∈ Part.walkAll ps ↔ ∃ n, .node n ∈ ps ∧ m ∈ n.walk := by
  induction ps with
  | nil => simp [Part.walkAll]
  | cons p ps ih =>
    cases p with
    | text s => simp [Part.walkAll, ih]
    | node n => simp [Part.walkAll, ih, or_and_right, exists_or]

/-- Calls are walked through by their arguments. -/
theorem mem_walkAll_modifiers {ms : List Modifier} :
    m ∈ Modifier.walkAll ms ↔ ∃ c ∈ ms, ∃ n ∈ c.args, m ∈ n.walk := by
  induction ms with
  | nil => simp [Modifier.walkAll]
  | cons c ms ih =>
    cases c with
    | mk name args => simp [Modifier.walkAll, Modifier.args, mem_walkAll, ih]

end Node

/-! ## Marks -/

/-- A constant that a tree names or a property that one of its shapes declares. -/
inductive Mark where
  | name (const : String)
  | property (name : Scalar)

/-- The marks of a node itself. -/
def Node.shown : Node → Set Mark
  | .identifier const => {.name const}
  | .shape properties => {k | ∃ p ∈ properties, k = .property p.name}
  | _ => ∅

/-- The marks of a node and of all nodes below it. -/
def Node.marks (n : Node) : Set Mark := {k | ∃ m ∈ n.walk, k ∈ m.shown}

/-- The marks of some nodes. -/
def Node.marksAll (ns : List Node) : Set Mark := {k | ∃ n ∈ ns, k ∈ n.marks}

/-- The marks of the nodes inside program text. -/
def Part.marksAll (parts : List Part) : Set Mark := {k | ∃ n, .node n ∈ parts ∧ k ∈ n.marks}

/-- The marks of the arguments of some calls. -/
def Modifier.marksAll (ms : List Modifier) : Set Mark := {k | ∃ m ∈ ms, k ∈ Node.marksAll m.args}

def Expression.marks (e : Expression) : Set Mark := e.toNode.marks

/-- The marks of some expressions. -/
def Expression.marksAll (es : List Expression) : Set Mark := {k | ∃ e ∈ es, k ∈ e.marks}

/-- **A name is marked where an identifier with it stands in the tree.** -/
theorem Node.name_mem_marks {n : Node} {const : String} :
    .name const ∈ n.marks ↔ .identifier const ∈ n.walk := by
  constructor
  · rintro ⟨m, hm, hshown⟩
    cases m with
    | identifier c =>
      obtain rfl : const = c := by simpa [Node.shown] using hshown
      exact hm
    | shape ps => simp [Node.shown] at hshown
    | _ => exact absurd hshown (Set.notMem_empty _)
  · exact fun h => ⟨_, h, rfl⟩

/-- **A property is marked where a shape in the tree declares it.** -/
theorem Node.property_mem_marks {n : Node} {name : Scalar} :
    .property name ∈ n.marks ↔ ∃ properties, .shape properties ∈ n.walk ∧
      ∃ p ∈ properties, p.name = name := by
  constructor
  · rintro ⟨m, hm, hshown⟩
    cases m with
    | identifier c => simp [Node.shown] at hshown
    | shape ps =>
      obtain ⟨p, hp, hname⟩ : ∃ p ∈ ps, Mark.property name = .property p.name := hshown
      cases hname
      exact ⟨ps, hm, p, hp, rfl⟩
    | _ => exact absurd hshown (Set.notMem_empty _)
  · rintro ⟨ps, hm, p, hp, rfl⟩
    exact ⟨_, hm, p, hp, rfl⟩

/-! ## Lists -/

section Lists

variable {n : Node} {ns ns' : List Node} {parts parts' : List Part} {e : Expression}
  {es es' : List Expression}

@[simp] theorem Node.marksAll_nil : Node.marksAll [] = ∅ := by simp [Node.marksAll]

@[simp] theorem Node.marksAll_cons : Node.marksAll (n :: ns) = n.marks ∪ Node.marksAll ns := by
  ext k
  simp [Node.marksAll]

@[simp] theorem Part.marksAll_nil : Part.marksAll [] = ∅ := by simp [Part.marksAll]

@[simp] theorem Part.marksAll_text {s : String} :
    Part.marksAll (.text s :: parts) = Part.marksAll parts := by
  ext k
  simp [Part.marksAll]

@[simp] theorem Part.marksAll_node :
    Part.marksAll (.node n :: parts) = n.marks ∪ Part.marksAll parts := by
  ext k
  simp [Part.marksAll, or_and_right, exists_or]

@[simp] theorem Part.marksAll_append :
    Part.marksAll (parts ++ parts') = Part.marksAll parts ∪ Part.marksAll parts' := by
  ext k
  simp [Part.marksAll, or_and_right, exists_or]

@[simp] theorem Modifier.marksAll_nil : Modifier.marksAll [] = ∅ := by simp [Modifier.marksAll]

@[simp] theorem Modifier.marksAll_cons {name : String} {args : List Node} {ms : List Modifier} :
    Modifier.marksAll (.mk name args :: ms) = Node.marksAll args ∪ Modifier.marksAll ms := by
  ext k
  simp [Modifier.marksAll, Modifier.args]

@[simp] theorem Modifier.marksAll_append {ms ms' : List Modifier} :
    Modifier.marksAll (ms ++ ms') = Modifier.marksAll ms ∪ Modifier.marksAll ms' := by
  ext k
  simp [Modifier.marksAll, or_and_right, exists_or]

@[simp] theorem Node.marksAll_map_toNode :
    Node.marksAll (es.map Expression.toNode) = Expression.marksAll es := by
  ext k
  simp [Node.marksAll, Expression.marksAll, Expression.marks]

end Lists

/-! ## Nodes -/

namespace Node

/-- A walk starts at its node, so the marks are those of the node and those of the rest. -/
theorem marks_of_walk {n : Node} {below : List Node} (h : n.walk = n :: below) :
    n.marks = n.shown ∪ {k | ∃ m ∈ below, k ∈ m.shown} := by
  ext k
  simp only [marks, h, List.exists_mem_cons_iff, Set.mem_ofPred_eq, Set.mem_union]

/-- A node that shows nothing itself has the marks of the nodes below it. -/
theorem marks_of_walk_below {n : Node} {below : List Node} (h : n.walk = n :: below)
    (hshown : n.shown = ∅) : n.marks = {k | ∃ m ∈ below, k ∈ m.shown} := by
  rw [marks_of_walk h, hshown, Set.empty_union]

/-- A leaf has the marks that it shows itself. -/
theorem marks_of_leaf {n : Node} (h : n.walk = [n]) : n.marks = n.shown := by
  rw [marks_of_walk h]
  simp

theorem shown_walkAll {ns : List Node} : {k | ∃ m ∈ walkAll ns, k ∈ m.shown} = marksAll ns := by
  ext k
  constructor
  · rintro ⟨m, hm, hk⟩
    obtain ⟨n, hn, hm⟩ := mem_walkAll.mp hm
    exact ⟨n, hn, m, hm, hk⟩
  · rintro ⟨n, hn, m, hm, hk⟩
    exact ⟨m, mem_walkAll.mpr ⟨n, hn, hm⟩, hk⟩

@[simp] theorem marks_identifier {const : String} :
    (Node.identifier const).marks = {.name const} := marks_of_leaf rfl

/-- A deferred reference is marked by its target, like a plain one; its type is no constant. -/
@[simp] theorem marks_deferred {target type : String} :
    (Node.deferred target type).marks = {.name target} := by
  rw [marks_of_walk_below rfl rfl]
  simp [shown]

@[simp] theorem marks_member {target : Node} {field : String} :
    (Node.member target field).marks = target.marks := marks_of_walk_below rfl rfl

@[simp] theorem marks_literal {value : Value} : (Node.literal value).marks = ∅ := marks_of_leaf rfl

@[simp] theorem marks_regex {source : String} : (Node.regex source).marks = ∅ := marks_of_leaf rfl

@[simp] theorem marks_array {items : List Node} : (Node.array items).marks = marksAll items :=
  (marks_of_walk_below rfl rfl).trans shown_walkAll

/-- A shape declares its properties, and has the marks of their validators. -/
theorem marks_shape {properties : List Property} :
    (Node.shape properties).marks =
      {k | ∃ p ∈ properties, k ∈ p.value.marks} ∪ {k | ∃ p ∈ properties, k = .property p.name} := by
  rw [marks_of_walk rfl, Set.union_comm]
  refine congrArg (· ∪ _) ?_
  ext k
  constructor
  · rintro ⟨m, hm, hk⟩
    obtain ⟨p, hp, hm⟩ := mem_walkAll_properties.mp hm
    exact ⟨p, hp, m, hm, hk⟩
  · rintro ⟨p, hp, m, hm, hk⟩
    exact ⟨m, mem_walkAll_properties.mpr ⟨p, hp, hm⟩, hk⟩

@[simp] theorem marks_shape_nil : (Node.shape []).marks = ∅ := by simp [marks_shape]

@[simp] theorem marks_code {parts : List Part} : (Node.code parts).marks = Part.marksAll parts := by
  rw [marks_of_walk_below rfl rfl]
  ext k
  constructor
  · rintro ⟨m, hm, hk⟩
    obtain ⟨n, hn, hm⟩ := mem_walkAll_parts.mp hm
    exact ⟨n, hn, m, hm, hk⟩
  · rintro ⟨n, hn, m, hm, hk⟩
    exact ⟨m, mem_walkAll_parts.mpr ⟨n, hn, hm⟩, hk⟩

@[simp] theorem marks_call {callee : String} {args : List Node} :
    (Node.call callee args).marks = marksAll args :=
  (marks_of_walk_below rfl rfl).trans shown_walkAll

/-- A chain has the marks of its base and of the arguments of its calls. -/
theorem marks_chain {base : Node} {ms : List Modifier} :
    (Node.chain base ms).marks = base.marks ∪ Modifier.marksAll ms := by
  rw [marks_of_walk_below rfl rfl]
  ext k
  constructor
  · rintro ⟨m, hm, hk⟩
    rcases List.mem_append.mp hm with hm | hm
    · exact Or.inl ⟨m, hm, hk⟩
    · obtain ⟨c, hc, n, hn, hm⟩ := mem_walkAll_modifiers.mp hm
      exact Or.inr ⟨c, hc, n, hn, m, hm, hk⟩
  · rintro (⟨m, hm, hk⟩ | ⟨c, hc, n, hn, m, hm, hk⟩)
    · exact ⟨m, List.mem_append.mpr (Or.inl hm), hk⟩
    · exact ⟨m, List.mem_append.mpr (Or.inr (mem_walkAll_modifiers.mpr ⟨c, hc, n, hn, hm⟩)), hk⟩

@[simp] theorem marks_toNode {e : Expression} : e.toNode.marks = e.marks := rfl

@[simp] theorem marks_codeText {s : String} : (codeText s).marks = ∅ := by simp [codeText]

@[simp] theorem marks_messageOptions {s : String} : (messageOptions s).marks = ∅ := marks_codeText

end Node

/-! ## Expressions -/

namespace Expression

variable {e e' : Expression} {name : String} {args : List Node}

/-- The same, for the expression that is the chain. -/
theorem marks_eq (e : Expression) : e.marks = e.base.marks ∪ Modifier.marksAll e.modifiers :=
  Node.marks_chain

@[simp] theorem marks_mk {base : Node} {ms : List Modifier} :
    (Expression.mk base ms).marks = base.marks ∪ Modifier.marksAll ms := marks_eq _

@[simp] theorem marks_zod : (zod name args).marks = Node.marksAll args := by simp [zod]

@[simp] theorem marks_plainRef {const : String} : (plainRef const).marks = {.name const} := by
  simp [plainRef]

@[simp] theorem marks_deferredRef {const type : String} :
    (deferredRef const type).marks = {.name const} := by
  simp [deferredRef]

/-- A call adds the marks of its arguments. -/
@[simp] theorem marks_andThen : (e.andThen name args).marks = e.marks ∪ Node.marksAll args := by
  simp [andThen, marks_eq, Set.union_assoc]

@[simp] theorem marks_nullableIf {nullable : Bool} : (e.nullableIf nullable).marks = e.marks := by
  cases nullable <;> simp [nullableIf]

/-- Descriptions are literals and have no marks. -/
@[simp] theorem marks_describe {description : Value} {asked : Bool} :
    (e.describe description asked).marks = e.marks := by
  unfold describe
  split
  · split <;> simp
  · rfl

/-- A call that has no marks and that is made under a condition. -/
@[simp] theorem marks_andThen_ite {c : Prop} [Decidable c] (h : Node.marksAll args = ∅) :
    (if c then e else e.andThen name args).marks = e.marks := by
  split <;> simp [h]

/-- Wherever a chain lets null pass, it does so without arguments. -/
def PlainNull (e : Expression) : Prop := ∀ m ∈ e.modifiers, m.name = "nullable" → m.args = []

@[simp] theorem plainNull_zod : (zod name args).PlainNull := by simp [zod, PlainNull]

@[simp] theorem plainNull_plainRef {const : String} : (plainRef const).PlainNull := by
  simp [plainRef, PlainNull]

@[simp] theorem plainNull_deferredRef {const type : String} :
    (deferredRef const type).PlainNull := by
  simp [deferredRef, PlainNull]

/-- A call that lets null pass has no arguments; other calls may have any. -/
@[simp] theorem plainNull_andThen :
    (e.andThen name args).PlainNull ↔ e.PlainNull ∧ (name = "nullable" → args = []) := by
  simp only [PlainNull, andThen, List.forall_mem_append, List.forall_mem_singleton, Modifier.name,
    Modifier.args]

@[simp] theorem plainNull_nullableIf {nullable : Bool} :
    (e.nullableIf nullable).PlainNull ↔ e.PlainNull := by
  cases nullable <;> simp [nullableIf]

@[simp] theorem plainNull_describe {description : Value} {asked : Bool} :
    (e.describe description asked).PlainNull ↔ e.PlainNull := by
  unfold describe
  split
  · split <;> simp
  · rfl

theorem PlainNull.ite {c : Prop} [Decidable c] (h : e.PlainNull) (h' : e'.PlainNull) :
    (if c then e else e').PlainNull := by
  split
  · exact h
  · exact h'

/-- Every beginning of a chain is plain if the chain is. -/
theorem PlainNull.dropLast (h : e.PlainNull) :
    (⟨e.base, e.modifiers.dropLast⟩ : Expression).PlainNull :=
  fun m hm => h m ((List.dropLast_sublist _).subset hm)

/-- Calls of other names do not matter. -/
theorem PlainNull.append {ms : List Modifier} (h : e.PlainNull)
    (hms : ∀ m ∈ ms, m.name ≠ "nullable") :
    (⟨e.base, e.modifiers ++ ms⟩ : Expression).PlainNull :=
  List.forall_mem_append.mpr ⟨h, fun m hm hname => absurd hname (hms m hm)⟩

/-- **Taking off a final `nullable` takes off no mark.** -/
theorem marks_dropLast (h : e.PlainNull) (hnull : e.isNullable = true) :
    (⟨e.base, e.modifiers.dropLast⟩ : Expression).marks = e.marks := by
  unfold isNullable at hnull
  split at hnull
  · rename_i m hlast
    obtain ⟨ms, hms⟩ := List.getLast?_eq_some_iff.mp hlast
    have hargs : m.args = [] := h m (hms ▸ by simp) (by simpa using hnull)
    obtain ⟨name, args⟩ := m
    obtain rfl : args = [] := hargs
    rw [marks_eq, marks_eq, hms]
    simp
  · cases hnull

/-- An expression without marks. -/
structure Blank (e : Expression) : Prop where
  marks : e.marks = ∅
  plain : e.PlainNull

/-- A constructor is blank if its arguments have no marks. -/
theorem blank_zod (h : Node.marksAll args = ∅) : (zod name args).Blank := ⟨by simp [h], by simp⟩

/-- So is a call, other than the one that lets null pass. -/
theorem Blank.andThen (he : e.Blank) (hname : name ≠ "nullable") (h : Node.marksAll args = ∅) :
    (e.andThen name args).Blank :=
  ⟨by simp [he.marks, h], by simp [he.plain, hname]⟩

theorem Blank.ite {c : Prop} [Decidable c] (he : e.Blank) (he' : e'.Blank) :
    (if c then e else e').Blank := by
  split
  · exact he
  · exact he'

theorem Blank.describe (he : e.Blank) (description : Value) (asked : Bool) :
    (e.describe description asked).Blank :=
  ⟨by simp [he.marks], by simp [he.plain]⟩

end Expression

end SchemaForge
