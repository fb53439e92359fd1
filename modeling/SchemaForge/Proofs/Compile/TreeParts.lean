import SchemaForge.Proofs.Compile.Logic
import SchemaForge.Proofs.Compile.Parts

/-!
# Conditions on trees

A `TreeCondition` goes through the builders of expressions: if it holds of the parts of a tree then
it holds of the tree. Only for the methods that objects alone have it may ask more, namely that they
are called on one of the expressions that `calls` allows.

The statements below follow the parts of the compiler for strings, numbers, arrays and objects. They
assume the condition of the schemas inside, and compare two ways to compile these; what is known of a
branch of a composition beyond the condition is left open (`F`).
-/

namespace SchemaForge.Compile

open Schema

/-- The methods that only object validators have. -/
def objectCalls : List String := ["extend", "omit", "catchall"]

/-- A condition on nodes, with the expressions on which methods of objects may be called. -/
structure TreeCondition where
  node : Node → Prop
  calls : Expression → Prop
  literal : ∀ v, node (.literal v)
  regex : ∀ source, node (.regex source)
  array : ∀ {items}, (∀ n ∈ items, node n) → node (.array items)
  shape : ∀ {properties : List Property}, (∀ p ∈ properties, node p.value) → node (.shape properties)
  code : ∀ {parts}, (∀ n, Part.node n ∈ parts → node n) → node (.code parts)
  member : ∀ {n field}, node n → node (.member n field)
  zod : ∀ {name args}, (∀ n ∈ args, node n) → node (zod name args).toNode
  andThen : ∀ {e : Expression} {name args}, node e.toNode → (∀ n ∈ args, node n) →
    (name ∈ objectCalls → calls e) → node (e.andThen name args).toNode
  dropLast : ∀ {e : Expression}, node e.toNode →
    node (⟨e.base, e.modifiers.dropLast⟩ : Expression).toNode
  calls_zod : ∀ {name args}, "z." ++ name ∈ objectCallees → calls (SchemaForge.zod name args)
  calls_name : ∀ {e : Expression}, e.isBareName = true → calls e
  calls_andThen : ∀ {e : Expression} {name args}, calls e → name ≠ "nullable" → name ≠ "and" →
    calls (e.andThen name args)
  calls_dropLast : ∀ {e : Expression}, calls e → calls ⟨e.base, e.modifiers.dropLast⟩

namespace TreeCondition

variable {T : TreeCondition} {e : Expression}

/-- An expression whose tree has the condition. -/
abbrev Holds (T : TreeCondition) (e : Expression) : Prop := T.node e.toNode

theorem codeText (T : TreeCondition) (s : String) : T.node (codeText s) := T.code (by simp)

theorem messageOptions (T : TreeCondition) (s : String) : T.node (messageOptions s) := T.codeText _

/-- A constructor without arguments. -/
theorem zod_nil (T : TreeCondition) (name : String) : T.Holds (SchemaForge.zod name []) :=
  T.zod (by simp)

namespace Holds

/-- A call of a method that not only objects have. -/
theorem andThen {name : String} {args : List Node} (he : T.Holds e) (hname : name ∉ objectCalls)
    (hargs : ∀ n ∈ args, T.node n) : T.Holds (e.andThen name args) :=
  TreeCondition.andThen T he hargs fun h => absurd h hname

/-- Letting null pass is a call that all expressions have. -/
theorem nullableIf (he : T.Holds e) (nullable : Bool) : T.Holds (e.nullableIf nullable) := by
  cases nullable with
  | true => exact he.andThen (by decide) (by simp)
  | false => exact he

/-- So is a description. -/
theorem describe (he : T.Holds e) (description : Value) (asked : Bool) :
    T.Holds (e.describe description asked) := by
  unfold Expression.describe
  split
  · split
    · exact he.andThen (by decide) (by simpa using T.literal _)
    · exact he
  · exact he

/-- The arguments of a refinement are nodes of the tree. -/
theorem refine {check options : Node} (he : T.Holds e) (hcheck : T.node check)
    (hoptions : T.node options) : T.Holds (e.andThen "refine" [check, options]) :=
  he.andThen (by decide) (by simp [hcheck, hoptions])

theorem ite {c : Prop} [Decidable c] {e' : Expression} (he : T.Holds e) (he' : T.Holds e') :
    T.Holds (if c then e else e') := by
  split
  · exact he
  · exact he'

/-- Letting other properties pass is a call that objects alone have. -/
theorem admitAll (he : T.Holds e) (hcalls : T.calls e) : T.Holds (Compile.admitAll e) :=
  TreeCondition.andThen T he (List.forall_mem_singleton.mpr (T.zod_nil "unknown")) fun _ => hcalls

/-- It is not made again where it was made before. -/
theorem ensureAdmits (he : T.Holds e) (hcalls : e.hasModifier "catchall" = false → T.calls e) :
    T.Holds (Compile.ensureAdmits e) := by
  unfold Compile.ensureAdmits
  split
  · exact he
  · rename_i hadmits
    exact he.admitAll (hcalls (by simpa using hadmits))

end Holds

/-- A call of a method in the chain of an object. -/
structure HoldsObject (T : TreeCondition) (e : Expression) : Prop where
  holds : T.Holds e
  calls : T.calls e

namespace HoldsObject

theorem andThen {name : String} {args : List Node} (he : T.HoldsObject e)
    (hnull : name ≠ "nullable") (hand : name ≠ "and") (hargs : ∀ n ∈ args, T.node n) :
    T.HoldsObject (e.andThen name args) :=
  ⟨TreeCondition.andThen T he.holds hargs fun _ => he.calls, T.calls_andThen he.calls hnull hand⟩

theorem ite {c : Prop} [Decidable c] {e' : Expression} (he : T.HoldsObject e)
    (he' : T.HoldsObject e') : T.HoldsObject (if c then e else e') := by
  split
  · exact he
  · exact he'

theorem admitAll (he : T.HoldsObject e) : T.HoldsObject (Compile.admitAll e) :=
  he.andThen (by decide) (by decide) (List.forall_mem_singleton.mpr (T.zod_nil "unknown"))

theorem ensureAdmits (he : T.HoldsObject e) : T.HoldsObject (Compile.ensureAdmits e) := by
  unfold Compile.ensureAdmits
  exact he.ite he.admitAll

/-- Rules between properties at the end of the chain. -/
theorem append : ∀ {ms : List Modifier} {e : Expression}, T.HoldsObject e →
    (∀ m ∈ ms, m.name = "superRefine" ∧ ∀ n ∈ m.args, T.node n) →
    T.HoldsObject ⟨e.base, e.modifiers ++ ms⟩
  | [], e, he, _ => by simpa using he
  | .mk name args :: ms, e, he, hms => by
    obtain ⟨⟨hname, hargs⟩, hrest⟩ := List.forall_mem_cons.mp hms
    obtain rfl : name = "superRefine" := hname
    have hone : T.HoldsObject (e.andThen "superRefine" args) :=
      he.andThen (by decide) (by decide) hargs
    simpa [Expression.andThen, List.append_assoc] using append hone hrest

end HoldsObject

end TreeCondition

open TreeCondition

/-! ## Properties of one side -/

section Gives

variable {α : Type} {X : String} {Q Q' : α → Prop} {a b : Compile α}

/-- In the session of `X` a computation gives only results with a property. -/
def Gives (X : String) (Q : α → Prop) (a : Compile α) : Prop :=
  ∀ p x q, p.session.name = some X → a.run p = (.ok x, q) → Q x

/-- Of two computations that do the same, one gives what both give. -/
theorem Same.gives (h : Same X Q a b) : Gives X Q a :=
  fun p x q hp hx => ((h p hp).2 x q hx).2

/-- What one side gives on its own is known of both. -/
theorem Same.and (h : Same X Q a b) (h' : Gives X Q' a) : Same X (fun x => Q x ∧ Q' x) a b := by
  intro p hp
  obtain ⟨heq, hok⟩ := h p hp
  exact ⟨heq, fun x q hx => ⟨(hok x q hx).1, (hok x q hx).2, h' p x q hp hx⟩⟩

end Gives

variable {T : TreeCondition} {X : String} {F : Value → Expression → Prop} {env : Environment}

/-- Two ways to compile the schemas inside another do the same on values with a property; the
condition holds of what they give, and of branches more is known. -/
def InnerHolds (T : TreeCondition) (X : String) (F : Value → Expression → Prop) (D : Value → Prop)
    (inner inner' : Inner) : Prop :=
  ∀ v branch, D v → Same X (fun e => T.Holds e ∧ (branch = true → F v e)) (inner v branch)
    (inner' v branch)

/-- The condition alone, of branches and of other schemas inside. -/
theorem InnerHolds.holds {D : Value → Prop} {inner inner' : Inner}
    (h : InnerHolds T X F D inner inner') {v : Value} (hv : D v) (branch : Bool) :
    Same X T.Holds (inner v branch) (inner' v branch) :=
  (h v branch hv).mono fun _ he => he.1

/-- What is known of a branch, with the condition. -/
theorem InnerHolds.branch {D : Value → Prop} {inner inner' : Inner}
    (h : InnerHolds T X F D inner inner') {v : Value} (hv : D v) :
    Same X (fun e => T.Holds e ∧ F v e) (inner v true) (inner' v true) :=
  (h v true hv).mono fun _ he => ⟨he.1, he.2 rfl⟩

/-! ## Strings and numbers -/

section Primitives

variable {schema : Fields}

/-- A rule of a format is a refinement, or nothing. -/
theorem holds_refine {e : Expression} (rule : Formats.Rule) (he : T.Holds e) :
    T.Holds (rule.refine e) := by
  cases rule with
  | refinement test message => exact he.refine (T.codeText _) (T.messageOptions _)
  | constructor name => exact he
  | sameAs name => exact he

theorem holds_validator (rule : Formats.Rule) : T.Holds rule.validator := by
  cases rule with
  | constructor name => exact T.zod_nil _
  | refinement test message => exact holds_refine _ (T.zod_nil _)
  | sameAs name => exact holds_refine _ (T.zod_nil _)

/-- **What a format starts from has the condition**, given that the expression for moments has it.
-/
theorem holds_formatBase (hd : T.Holds env.context.dateTime) {e : Expression}
    (h : formatBase env schema = .ok e) : T.Holds e := by
  unfold formatBase at h
  dsimp only at h
  split at h
  · split at h
    · cases h
      exact hd
    · obtain ⟨rule, -, h⟩ := Outcome.bind_eq_ok.mp h
      split at h
      · cases h
        exact holds_validator _
      · cases h
        exact T.zod_nil _
  · cases h
    exact T.zod_nil _

/-- So has what encoded contents start from. -/
theorem holds_encodingBase {encoding : Value} {e : Expression}
    (h : encodingBase encoding = .ok e) : T.Holds e := by
  obtain ⟨rule, -, h⟩ := Outcome.bind_eq_ok.mp h
  split at h
  · cases h
    exact holds_validator _
  · cases h
    exact (T.zod_nil _).andThen (by decide) (by simpa using T.literal _)

/-- Constraints on strings are calls that all expressions have. -/
theorem stringConstraints_holds {e : Expression} (he : T.Holds e) :
    Same X T.Holds (stringConstraints schema e) (stringConstraints schema e) := by
  have hbound : ∀ {e : Expression} {name : String} {v : Value}, T.Holds e → name ∉ objectCalls →
      T.Holds (if v.isNull then e else e.andThen name [.literal v]) :=
    fun he hname => he.ite (he.andThen hname (by simpa using T.literal _))
  refine Same.ite (fun _ => ?_) fun _ => .pure (hbound (hbound he (by decide)) (by decide))
  refine (Same.escapedPattern _).bind fun source _ => .pure ?_
  exact (hbound (hbound he (by decide)) (by decide)).andThen (by decide) (by simpa using T.regex _)

/-- **A string has the condition.** It is compiled by no other schema, so the two ways agree on it.
-/
theorem compileString_holds (hd : T.Holds env.context.dateTime) :
    Same X T.Holds (compileString env schema) (compileString env schema) := by
  refine Same.liftBind fun base hbase => ?_
  refine (stringConstraints_holds (holds_formatBase hd hbase)).bind fun e he => ?_
  have hdescribed : ∀ e : Expression, T.Holds e →
      Same X T.Holds (pure (e.describe (schema.value "description") env.describes))
        (pure (e.describe (schema.value "description") env.describes)) :=
    fun e he => .pure (he.describe _ _)
  refine Same.ite (fun _ => ?_) fun _ => Same.ite (fun _ => ?_) fun _ => ?_
  · refine Same.liftBind fun encoded hencoded => ?_
    exact (stringConstraints_holds (holds_encodingBase hencoded)).bind hdescribed
  · refine Same.liftBind fun rule _ => ?_
    cases rule with
    | some rule => exact (Same.pure (holds_refine rule he)).bind hdescribed
    | none => exact (Same.pure he).bind hdescribed
  · exact (Same.pure he).bind hdescribed

/-- **So has a number**: its bounds are calls that all expressions have. -/
theorem holds_compileNumber {isInteger : Bool} : T.Holds (compileNumber env schema isInteger) := by
  have hbound : ∀ {name : String} {v : Value} {e : Expression}, name ∉ objectCalls → T.Holds e →
      T.Holds (bound name v e) := by
    intro name v e hname he
    exact (he.andThen hname (by simpa using T.literal _)).ite he
  have hpicked : ∀ {c : Prop} [Decidable c] {name name' : String}, name ∉ objectCalls →
      name' ∉ objectCalls → (if c then name else name') ∉ objectCalls := by
    intro c _ name name' h h'
    split
    · exact h
    · exact h'
  unfold compileNumber
  refine Holds.describe ?_ _ _
  refine hbound (by decide) (hbound (by decide) (hbound (hpicked (by decide) (by decide))
    (hbound (by decide) (hbound (hpicked (by decide) (by decide)) ?_))))
  exact ((T.zod_nil _).andThen (by decide) (by simp)).ite (T.zod_nil _)

/-- **So has an enum**, in each of the ways to write it. -/
theorem holds_compileEnum {values : List Value} : T.Holds (compileEnum values) := by
  unfold compileEnum
  split
  · exact T.zod_nil _
  · split
    · refine T.zod (List.forall_mem_singleton.mpr (T.array ?_))
      exact List.forall_mem_map.mpr fun v _ => T.literal v
    · refine T.zod (List.forall_mem_singleton.mpr (T.array ?_))
      exact List.forall_mem_map.mpr fun v _ => T.zod (by simpa using T.literal v)

end Primitives

/-! ## Arrays -/

section Arrays

variable {inner inner' : Inner} {schema : Fields}
  (h : InnerHolds T X F (PartOf schema) inner inner')
include h

/-- The places of a tuple and what follows them are schemas inside. -/
theorem compileTuple_holds :
    Same X T.Holds (compileTuple inner schema) (compileTuple inner' schema) := by
  refine Same.liftBind fun places hplaces => ?_
  refine (Same.mapM fun v hv => h.holds (.place hplaces hv) false).bind fun es hes => ?_
  have htuple : T.Holds (zod "tuple" [.array (es.map Expression.toNode)]) := by
    refine T.zod (List.forall_mem_singleton.mpr (T.array ?_))
    exact List.forall_mem_map.mpr fun e he => hes e he
  refine Same.ite (fun hrest => ?_) fun _ => Same.ite (fun _ => .pure ?_) fun _ => .pure htuple
  · have hpart : PartOf schema (if (schema.value "items").isObject then schema.value "items"
        else schema.value "unevaluatedItems") := by
      by_cases hitems : (schema.value "items").isObject = true
      · rw [if_pos hitems] at hrest ⊢
        exact .keyword (by decide) hrest
      · rw [if_neg hitems] at hrest ⊢
        exact .keyword (by decide) hrest
    refine (h.holds hpart false).bind fun rest hrest => .pure ?_
    exact htuple.andThen (by decide) (List.forall_mem_singleton.mpr hrest)
  · exact htuple.refine (T.codeText _) (T.messageOptions _)

/-- The items of a list are one schema inside. -/
theorem compileList_holds :
    Same X T.Holds (compileList inner schema) (compileList inner' schema) := by
  refine Same.iteBind (Q := T.Holds) (fun hitems => ?_) (fun _ => .pure (T.zod_nil _))
    fun item hitem => .pure ?_
  · exact h.holds (.keyword (by decide) hitems) false
  · have harray : T.Holds (zod "array" [item.toNode]) := T.zod (List.forall_mem_singleton.mpr hitem)
    have hbound : ∀ {e : Expression} {name : String} {v : Value}, T.Holds e → name ∉ objectCalls →
        T.Holds (if v.isNull then e else e.andThen name [.literal v]) :=
      fun he hname => he.ite (he.andThen hname (by simpa using T.literal _))
    exact hbound (hbound harray (by decide)) (by decide)

/-- The schema of some item is compiled into the code of a refinement. -/
theorem compileContains_holds {e : Expression} (he : T.Holds e) :
    Same X T.Holds (compileContains inner schema e) (compileContains inner' schema e) := by
  refine Same.ite (fun hcontains => ?_) fun _ => .pure he
  refine (h.holds (.keyword (by decide) hcontains) true).bind fun item hitem => .pure ?_
  exact he.refine (T.code (by simpa using hitem)) (T.messageOptions _)

/-- **An array has the condition if the schemas inside do.** -/
theorem compileArray_holds :
    Same X T.Holds (compileArray env inner schema) (compileArray env inner' schema) := by
  refine Same.iteBind (fun _ => compileTuple_holds h) (fun _ => compileList_holds h) fun e he => ?_
  refine (compileContains_holds h ?_).bind fun e he => .pure (he.describe _ _)
  exact (he.refine (T.codeText _) (T.messageOptions _)).ite he

end Arrays

/-! ## Objects -/

section Objects

variable {inner inner' : Inner} {schema : Fields} {e : Expression}

/-- Commas between nodes add no nodes. -/
theorem mem_commaParts {n : Node} : ∀ {ns : List Node}, Part.node n ∈ commaParts ns → n ∈ ns
  | [], h => by simp [commaParts] at h
  | [m], h => by simpa [commaParts] using h
  | m :: m' :: ns, h => by
    replace h : Part.node n ∈ .node m :: .text ", " :: commaParts (m' :: ns) := h
    rcases List.mem_cons.mp h with h | h
    · cases h
      exact List.mem_cons_self
    · refine List.mem_cons_of_mem _ (mem_commaParts ?_)
      simpa using h

/-- How many properties there are is a refinement. -/
theorem holdsObject_propertyCount (he : T.HoldsObject e) : T.HoldsObject (propertyCount schema e) := by
  unfold propertyCount
  exact he.ite (he.andThen (by decide) (by decide) (by simp [T.codeText, T.messageOptions]))

/-- Required names that are not declared let other properties pass, which objects can be asked to.
-/
theorem holdsObject_undeclaredRequired {e' : Expression} (he : T.HoldsObject e)
    (h : undeclaredRequired schema e = .ok e') : T.HoldsObject e' := by
  obtain ⟨declared, -, h⟩ := Outcome.bind_eq_ok.mp h
  obtain ⟨required, -, h⟩ := Outcome.bind_eq_ok.mp h
  dsimp only at h
  split at h
  · cases h
    exact he
  · obtain ⟨reads, -, h⟩ := Outcome.bind_eq_ok.mp h
    cases h
    exact he.ensureAdmits.andThen (by decide) (by decide) (by simp [T.codeText, T.messageOptions])

/-- Rules for names are a refinement. -/
theorem holdsObject_propertyNames {e' : Expression} (he : T.HoldsObject e)
    (h : propertyNames schema e = .ok e') : T.HoldsObject e' := by
  unfold propertyNames at h
  split at h
  · obtain ⟨checks, -, h⟩ := Outcome.bind_eq_ok.mp h
    split at h
    · cases h
      exact he
    · cases h
      exact he.andThen (by decide) (by decide) (List.forall_mem_singleton.mpr (T.code (by simp)))
  · cases h
    exact he

/-- Rules between properties. -/
def HoldRules (T : TreeCondition) (ms : List Modifier) : Prop :=
  ∀ m ∈ ms, m.name = "superRefine" ∧ ∀ n ∈ m.args, T.node n

/-- A rule is code; the condition is asked of the nodes in it. -/
theorem holdRules_superRefine {parts : List Part} (h : ∀ n, Part.node n ∈ parts → T.node n) :
    HoldRules T [superRefine parts] := by
  refine List.forall_mem_singleton.mpr ⟨rfl, List.forall_mem_singleton.mpr (T.code ?_)⟩
  intro n hn
  refine h n ?_
  simpa using hn

theorem holdRules_nil : HoldRules T [] := by simp [HoldRules]

/-- Names that require other names are rules without nodes. -/
theorem holdRules_dependentRequired {ms : List Modifier} (h : dependentRequired schema = .ok ms) :
    HoldRules T ms := by
  unfold dependentRequired at h
  split at h
  · obtain ⟨checks, -, h⟩ := Outcome.bind_eq_ok.mp h
    split at h
    · cases h
      exact holdRules_nil
    · cases h
      exact holdRules_superRefine (by simp)
  · cases h
    exact holdRules_nil

/-- **A shape has the condition if the visible definitions in it do.** -/
theorem compileShape_holds {D : Value → Prop} (h : InnerHolds T X F D inner inner')
    {comments : Bool}
    (hD : ∀ properties name v, (schema.value "properties").fieldsIfSet = .ok properties →
      (name, v) ∈ properties → D v) :
    Same X T.node (compileShape env inner comments schema)
      (compileShape env inner' comments schema) := by
  refine Same.liftBind fun required _ => Same.liftBind fun properties hproperties => ?_
  refine (Same.mapM (R := fun p : Property => T.node p.value) fun f hf => ?_).bind
    fun ps hps => .pure (T.shape hps)
  have hmem : (f.1, f.2) ∈ properties := List.mem_of_mem_filter hf
  refine (h.holds (hD properties f.1 f.2 hproperties hmem) false).bind fun e he => ?_
  have hvalue : T.Holds (if required.any (·.same f.1) then e else e.andThen "optional" []) :=
    Holds.ite he (Holds.andThen he (by decide) (by simp))
  refine Same.ite (fun _ => ?_) fun _ => .pure hvalue
  exact (Same.report _).bind fun _ _ => .pure hvalue

variable (h : InnerHolds T X F (PartOf schema) inner inner')
include h

/-- What other properties have to be is said by a call that objects alone have. -/
theorem additional_holds (he : T.HoldsObject e) :
    Same X T.HoldsObject (additional inner schema e) (additional inner' schema e) := by
  unfold additional
  split
  · rename_i fields hfields
    have hpart : PartOf schema (.object fields) := .of_value (by decide) hfields
    refine (h.holds hpart false).bind fun r hr => .pure ?_
    exact he.andThen (by decide) (by decide) (List.forall_mem_singleton.mpr hr)
  · exact .pure he.admitAll
  · exact .pure (he.admitAll.ite he)
  · exact .pure he

/-- The schemas of patterns are compiled into the code of a refinement. -/
theorem patternProperties_holds (he : T.HoldsObject e) :
    Same X T.HoldsObject (patternProperties inner schema e) (patternProperties inner' schema e) := by
  unfold patternProperties
  split
  · rename_i p ps hpatterns
    refine Same.liftBind fun declared _ => ?_
    refine (Same.mapM fun f hf => h.holds (.entry (by decide) hpatterns hf) false).bind
      fun es hes => ?_
    refine Same.liftBind fun names _ => Same.liftBind fun sources _ => .pure ?_
    refine he.andThen (by decide) (by decide) (List.forall_mem_singleton.mpr (T.code fun n hn => ?_))
    have hmem : n ∈ es.map Expression.toNode := mem_commaParts (by simpa using hn)
    obtain ⟨e, he, rfl⟩ := List.mem_map.mp hmem
    exact hes e he
  · exact .pure he

/-- The rules of dependencies hold the schemas that are asked for. -/
theorem dependencies_holds :
    Same X (HoldRules T) (dependencies inner schema) (dependencies inner' schema) := by
  unfold dependencies
  split
  · rename_i entries hentries
    refine (Same.mapM (R := HoldRules T) fun f hf => ?_).bind fun found hfound => .pure ?_
    · obtain ⟨property, dependency⟩ := f
      cases dependency with
      | scalar s => exact .pure holdRules_nil
      | list required =>
        cases required with
        | nil => exact .pure holdRules_nil
        | cons r rs => exact Same.liftBind fun check _ => .pure (holdRules_superRefine (by simp))
      | object asked =>
        refine Same.bind (Q := fun m => HoldRules T [m]) ?_ fun m hm => .pure hm
        refine (h.holds (.entry (by decide) hentries hf) true).bind fun r hr => ?_
        refine Same.liftBind fun read _ => Same.liftBind fun place _ => .pure ?_
        exact holdRules_superRefine (by simpa using hr)
    · intro m hm
      obtain ⟨ms, hms, hm⟩ := List.mem_flatten.mp hm
      exact hfound ms hms m hm
  · exact .pure holdRules_nil

theorem branchCheck_holds {k : String} (hk : k ∈ schemaKeywords) :
    Same X (fun parts => ∀ n, Part.node n ∈ parts → T.node n) (branchCheck inner (schema.value k))
      (branchCheck inner' (schema.value k)) := by
  refine Same.ite (fun hb => ?_) fun _ => .pure (by simp)
  exact (h.holds (.keyword hk hb) true).bind fun r hr => .pure (by simpa using hr)

/-- The rule of a condition holds its test and both sides. -/
theorem ifThenElse_holds :
    Same X (HoldRules T) (ifThenElse inner schema) (ifThenElse inner' schema) := by
  refine Same.ite (fun hc => ?_) fun _ => .pure holdRules_nil
  have hif : (schema.value "if").isObject = true := (Bool.and_eq_true_iff.mp hc).1
  refine (h.holds (.keyword (by decide) hif) true).bind fun test htest => ?_
  refine (branchCheck_holds h (by decide)).bind fun yes hyes => ?_
  refine (branchCheck_holds h (by decide)).bind fun no hno => .pure (holdRules_superRefine ?_)
  intro n hn
  simp only [List.mem_append, List.mem_cons, List.not_mem_nil, or_false, reduceCtorEq, false_or,
    Part.node.injEq] at hn
  rcases hn with (rfl | hn) | hn
  · exact htest
  · exact hyes n hn
  · exact hno n hn

/-- **An object can be called on as one.** -/
theorem compileObject_holds :
    Same X T.HoldsObject (compileObject env inner schema) (compileObject env inner' schema) := by
  have hconstructor : "z." ++ objectConstructor env schema ∈ objectCallees := by
    unfold objectConstructor
    split
    · decide
    · cases env.context.mode <;> decide
  refine (compileShape_holds h fun _ _ _ hd hv => .property hd hv).bind fun shape hshape => ?_
  have hbase : T.HoldsObject (zod (objectConstructor env schema) [shape]) :=
    ⟨T.zod (List.forall_mem_singleton.mpr hshape), T.calls_zod hconstructor⟩
  refine (additional_holds h hbase).bind fun e he => ?_
  refine Same.liftBind fun e₁ h₁ => ?_
  have he₁ := holdsObject_undeclaredRequired (holdsObject_propertyCount he) h₁
  refine (patternProperties_holds h he₁).bind fun e₂ he₂ => ?_
  refine Same.liftBind fun e₃ h₃ => ?_
  have he₃ := holdsObject_propertyNames he₂ h₃
  refine (dependencies_holds h).bind fun ms hms => ?_
  refine Same.liftBind fun ms₁ hms₁ => ?_
  refine (ifThenElse_holds h).bind fun ms₂ hms₂ => .pure ?_
  have hrules : HoldRules T ms₁ := holdRules_dependentRequired hms₁
  exact ((he₃.append hms).append hrules).append hms₂

end Objects

end SchemaForge.Compile
