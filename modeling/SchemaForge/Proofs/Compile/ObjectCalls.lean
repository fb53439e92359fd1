import SchemaForge.Proofs.Compile.Deferral
import SchemaForge.Proofs.Compile.Visible
import SchemaForge.Proofs.Expression.Marks
import SchemaForge.Proofs.Expression.Outline

/-!
# Calls of methods of objects

Some methods exist on object validators only, so a chain that calls one has to begin with an object
and must not have turned into something else by then. A base that is the name of a constant says
nothing of what the constant holds.

The compiler calls such methods on objects that it has just built, which is always right, and on
branches of compositions, about which it asks little. `Solid` schemas compile to objects, so they may
be such branches; `BranchesFit` says where a schema needs them. If all schemas that are compiled on the way
fit, then methods of objects are called on objects only.
-/

namespace SchemaForge

namespace Compile

open Expression Schema Reference

/-! ## Single chains -/

/-- Methods of objects are called on objects, or on what a name stands for: never after the chain
lets null pass or became an intersection, and on no other base. -/
structure CallsObjects (e : Expression) : Prop where
  before : ∀ {earlier later : List Modifier} {m : Modifier},
    e.modifiers = earlier ++ m :: later → m.name ∈ objectCalls →
    ∀ c ∈ earlier, c.name ≠ "nullable" ∧ c.name ≠ "and"
  undeferred : (∃ m ∈ e.modifiers, m.name ∈ objectCalls) →
    ∀ target type, e.base ≠ .deferred target type
  callee : (∃ m ∈ e.modifiers, m.name ∈ objectCalls) →
    ∀ callee args, e.base = .call callee args → callee ∈ objectCallees

/-- Methods of objects may be called next. -/
structure Callable (e : Expression) : Prop where
  head : e.outline.head = .name ∨ ∃ callee ∈ objectCallees, e.outline.head = .call callee
  names : ∀ name ∈ e.outline.names, name ≠ "nullable" ∧ name ≠ "and"

variable {e : Expression}

namespace Callable

theorem exposesShape (h : Callable e) : e.exposesShape = true := by
  rw [exposesShape_iff]
  rcases h.head with hn | ⟨callee, -, hc⟩
  · simp [hn]
  · simp [hc]

theorem isNullable (h : Callable e) : e.isNullable = false := by
  rw [Bool.eq_false_iff, ne_eq, isNullable_iff]
  intro hlast
  exact (h.names _ (List.mem_of_getLast? hlast)).1 rfl

theorem hasModifier_and (h : Callable e) : e.hasModifier "and" = false := by
  rw [hasModifier_eq, Bool.eq_false_iff, ne_eq, List.contains_iff_mem]
  exact fun hmem => (h.names _ hmem).2 rfl

theorem andThen (h : Callable e) {name : String} {args : List Node} (hnull : name ≠ "nullable")
    (hand : name ≠ "and") : Callable (e.andThen name args) where
  head := by
    rw [outline_andThen]
    exact h.head
  names := by
    rw [outline_andThen]
    exact List.forall_mem_append.mpr ⟨h.names, List.forall_mem_singleton.mpr ⟨hnull, hand⟩⟩

theorem dropLast (h : Callable e) : Callable ⟨e.base, e.modifiers.dropLast⟩ where
  head := h.head
  names name hname := by
    refine h.names name ?_
    simp only [outline, modifierNames] at hname ⊢
    exact (List.dropLast_sublist _).map _ |>.subset hname

theorem of_call {callee : String} (h : callee ∈ objectCallees) {args : List Node} :
    Callable ⟨.call callee args, []⟩ where
  head := Or.inr ⟨callee, h, rfl⟩
  names := by simp [outline, modifierNames]

theorem of_isBareName (h : e.isBareName = true) : Callable e := by
  rw [isBareName_iff] at h
  exact ⟨by simp [h], by simp [h]⟩

end Callable

namespace CallsObjects

theorem nil (base : Node) : CallsObjects ⟨base, []⟩ where
  before h := by simp at h
  undeferred h := by simp at h
  callee h := by simp at h

/-- A chain may go on, with a method of objects if these may be called. -/
theorem andThen (h : CallsObjects e) {name : String} {args : List Node}
    (hcall : name ∈ objectCalls → Callable e) : CallsObjects (e.andThen name args) where
  before {earlier later m} heq hm := by
    rcases later.eq_nil_or_concat with rfl | ⟨later, last, rfl⟩
    · obtain ⟨rfl, hlast⟩ := List.append_inj' heq rfl
      obtain rfl : Modifier.mk name args = m := by simpa using hlast
      exact fun c hc => (hcall hm).names _ (List.mem_map_of_mem hc)
    · have heq : e.modifiers ++ [.mk name args] = (earlier ++ m :: later) ++ [last] := by
        simpa [Expression.andThen] using heq
      exact h.before (List.append_inj' heq rfl).1 hm
  undeferred hm target type hbase := by
    obtain ⟨m, hm, hname⟩ := hm
    rcases List.mem_append.mp hm with hm | hm
    · exact h.undeferred ⟨m, hm, hname⟩ target type hbase
    · obtain rfl : m = .mk name args := by simpa using hm
      have hhead := (hcall hname).head
      simp [outline, show e.base = .deferred target type from hbase, Node.head] at hhead
  callee hm callee args' hbase := by
    obtain ⟨m, hm, hname⟩ := hm
    rcases List.mem_append.mp hm with hm | hm
    · exact h.callee ⟨m, hm, hname⟩ callee args' hbase
    · obtain rfl : m = .mk name args := by simpa using hm
      have hhead := (hcall hname).head
      simpa [outline, show e.base = .call callee args' from hbase, Node.head] using hhead

theorem dropLast (h : CallsObjects e) : CallsObjects ⟨e.base, e.modifiers.dropLast⟩ where
  before {earlier later m} heq hm := by
    have hne : e.modifiers ≠ [] := by
      rintro hnil
      simp [hnil] at heq
    have heq' : e.modifiers = earlier ++ m :: (later ++ [e.modifiers.getLast hne]) := by
      rw [← List.cons_append, ← List.append_assoc, ← heq, List.dropLast_append_getLast]
    exact h.before heq' hm
  undeferred hm target type hbase := by
    obtain ⟨m, hm, hname⟩ := hm
    exact h.undeferred ⟨m, (List.dropLast_sublist _).subset hm, hname⟩ target type hbase
  callee hm callee args hbase := by
    obtain ⟨m, hm, hname⟩ := hm
    exact h.callee ⟨m, (List.dropLast_sublist _).subset hm, hname⟩ callee args hbase

/-- What is called before a method of objects. -/
theorem names (h : CallsObjects e) {earlier later : List String} {name : String}
    (heq : e.modifierNames = earlier ++ name :: later) (hname : name ∈ objectCalls) :
    "nullable" ∉ earlier ∧ "and" ∉ earlier := by
  obtain ⟨before, rest, hm, rfl, hrest⟩ := List.map_eq_append_iff.mp heq
  obtain ⟨m, after, rfl, rfl, rfl⟩ := List.map_eq_cons_iff.mp hrest
  have hbefore := h.before hm hname
  simp only [List.mem_map, not_exists, not_and]
  exact ⟨fun c hc => (hbefore c hc).1, fun c hc => (hbefore c hc).2⟩

end CallsObjects

/-! ## All chains in a tree -/

/-- In every chain below a node, methods of objects are called on objects. -/
def AllCallObjects (n : Node) : Prop :=
  ∀ base modifiers, .chain base modifiers ∈ n.walk → CallsObjects ⟨base, modifiers⟩

theorem allCallObjects_toNode :
    AllCallObjects e.toNode ↔ CallsObjects e ∧ AllCallObjects e.base ∧
      ∀ m ∈ e.modifiers, ∀ n ∈ m.args, AllCallObjects n := by
  simp only [AllCallObjects, toNode, Node.walk, List.mem_cons, Node.chain.injEq, List.mem_append,
    Node.mem_walkAll_modifiers]
  constructor
  · intro h
    refine ⟨h _ _ (Or.inl ⟨rfl, rfl⟩), fun base modifiers hb => h _ _ (Or.inr (Or.inl hb)), ?_⟩
    exact fun m hm n hn base modifiers hb => h _ _ (Or.inr (Or.inr ⟨m, hm, n, hn, hb⟩))
  · rintro ⟨hself, hbase, hargs⟩ base modifiers (⟨rfl, rfl⟩ | hb | ⟨m, hm, n, hn, hb⟩)
    · exact hself
    · exact hbase _ _ hb
    · exact hargs m hm n hn _ _ hb

/-- Methods of objects are called where they may be. -/
def callsCondition : TreeCondition where
  node := AllCallObjects
  calls := Callable
  literal _ _ _ h := by simp [Node.walk] at h
  regex _ _ _ h := by simp [Node.walk] at h
  array h base modifiers hm := by
    obtain ⟨n, hn, hm⟩ : ∃ n ∈ _, Node.chain base modifiers ∈ Node.walk n := by
      simpa [Node.walk, Node.mem_walkAll] using hm
    exact h n hn base modifiers hm
  shape h base modifiers hm := by
    obtain ⟨p, hp, hm⟩ : ∃ p ∈ _, Node.chain base modifiers ∈ (Property.value p).walk := by
      simpa [Node.walk, Node.mem_walkAll_properties] using hm
    exact h p hp base modifiers hm
  code h base modifiers hm := by
    obtain ⟨n, hn, hm⟩ : ∃ n, Part.node n ∈ _ ∧ Node.chain base modifiers ∈ n.walk := by
      simpa [Node.walk, Node.mem_walkAll_parts] using hm
    exact h n hn base modifiers hm
  member h base modifiers hm := h base modifiers (by simpa [Node.walk] using hm)
  zod h := by
    refine allCallObjects_toNode.mpr ⟨.nil _, fun base modifiers hm => ?_, by simp [zod]⟩
    obtain ⟨n, hn, hm⟩ : ∃ n ∈ _, Node.chain base modifiers ∈ Node.walk n := by
      simpa [zod, Node.walk, Node.mem_walkAll] using hm
    exact h n hn base modifiers hm
  andThen he hargs hcall := by
    obtain ⟨hself, hbase, hmodifiers⟩ := allCallObjects_toNode.mp he
    refine allCallObjects_toNode.mpr ⟨hself.andThen hcall, hbase, ?_⟩
    exact List.forall_mem_append.mpr ⟨hmodifiers, List.forall_mem_singleton.mpr hargs⟩
  dropLast he := by
    obtain ⟨hself, hbase, hmodifiers⟩ := allCallObjects_toNode.mp he
    refine allCallObjects_toNode.mpr ⟨hself.dropLast, hbase, fun m hm => hmodifiers m ?_⟩
    exact (List.dropLast_sublist _).subset hm
  calls_zod h := .of_call h
  calls_name h := .of_isBareName h
  calls_andThen h hnull hand := h.andThen hnull hand
  calls_dropLast h := h.dropLast

/-! ## Schemas that compile to objects -/

/-- A branch whose properties make a shape of their own. -/
def isInline : Value → Bool
  | .object branch => !Fields.has branch "$ref" && !Fields.has branch "allOf"
  | _ => false

/-- An object that is not a map from names to values. -/
def HasShape (env : Environment) (schema : Fields) (constrained : Bool) : Prop :=
  constrained = true ∨ schema.value "additionalProperties" = .bool false ∨
    (schema.value "additionalProperties").isObject = false ∧ env.context.emptyObject ≠ .record

/-- A reference that does not let null pass. -/
inductive IsReference (env : Environment) : Value → Prop where
  | mk {schema fields : Fields} {ref : String} (visible : visibleFields env schema = .ok fields)
      (form : classify fields = .ok (.reference ref (Naming.targetName ref)))
      (nonnull : isNullable fields false = false) : IsReference env (.object schema)

/-- A schema that compiles to an object in the session of `X`, or to a name. -/
inductive Solid (env : Environment) (X : String) : Value → Prop where
  | object {schema fields : Fields} {constrained : Bool}
      (visible : visibleFields env schema = .ok fields)
      (form : classify fields = .ok (.object constrained))
      (nonnull : isNullable fields false = false) (shaped : HasShape env fields constrained) :
      Solid env X (.object schema)
  | name {schema fields : Fields} {ref : String} (visible : visibleFields env schema = .ok fields)
      (form : classify fields = .ok (.reference ref (Naming.targetName ref)))
      (nonnull : isNullable fields false = false)
      (prompt : ∀ r, resolveAlias env.schemas (Naming.targetName ref) = .ok r →
        mustDefer env X (Naming.targetName ref) r = false) : Solid env X (.object schema)
  | single {schema fields : Fields} {b : Value} (visible : visibleFields env schema = .ok fields)
      (form : classify fields = .ok (.allOf [b])) (nonnull : isNullable fields false = false)
      (branch : Solid env X b) : Solid env X (.object schema)
  | several {schema fields : Fields} {branches : List Value}
      (visible : visibleFields env schema = .ok fields)
      (form : classify fields = .ok (.allOf branches)) (nonnull : isNullable fields false = false)
      (several : 2 ≤ branches.length) (alike : allObjectLike env.schemas branches = .ok true)
      (head : ∀ first ∈ branches.head?, Solid env X first)
      (others : ∀ b ∈ branches.tail, isInline b = false → Solid env X b) :
      Solid env X (.object schema)

/-- Branches of which the first can be extended by all others. -/
structure Extends (env : Environment) (X : String) (branches : List Value) : Prop where
  alike : allObjectLike env.schemas branches = .ok true
  head : ∀ first ∈ branches.head?, Solid env X first
  others : ∀ b ∈ branches.tail, isInline b = false → Solid env X b

/-- What is known of the branch that a schema compiles to. -/
structure Known (env : Environment) (X : String) (v : Value) (e : Expression) : Prop where
  solid : Solid env X v → Callable e
  reference : IsReference env v → e.outline = ⟨.name, []⟩ ∨ e.outline = ⟨.deferred, []⟩

variable {env : Environment} {X : String} {T : TreeCondition}

theorem Solid.isReference {schema : Fields} (h : Solid env X (.object schema))
    (href : schema.has "$ref" = true) : IsReference env (.object schema) := by
  have hforms : ∀ {fields form}, visibleFields env schema = .ok fields →
      classify fields = .ok form → (∃ types, form = .severalTypes types) ∨
        ∃ ref, form = .reference ref (Naming.targetName ref) :=
    fun hvisible => classify_of_ref ((has_visibleFields hvisible (by decide)).trans href)
  cases h with
  | object visible form => rcases hforms visible form with ⟨_, h⟩ | ⟨_, h⟩ <;> cases h
  | name visible form nonnull => exact .mk visible form nonnull
  | single visible form => rcases hforms visible form with ⟨_, h⟩ | ⟨_, h⟩ <;> cases h
  | several visible form => rcases hforms visible form with ⟨_, h⟩ | ⟨_, h⟩ <;> cases h

/-- A solid branch that holds a reference compiles to a name. -/
theorem Known.isBareName {schema : Fields} (h : Known env X (.object schema) e)
    (hs : Solid env X (.object schema)) (href : schema.has "$ref" = true) : e.isBareName = true := by
  rw [isBareName_iff]
  refine (h.reference (hs.isReference href)).resolve_right fun hd => ?_
  have hhead := (h.solid hs).head
  simp [hd] at hhead

/-! ## Extended branches -/

section Branches

variable {inner inner' : Inner} {branch : Value}

/-- Leaving properties out does not change how a branch extends the first one. -/
theorem solid_of_reduceBranch {omitted : List Scalar} {left : Value}
    (hreduced : reduceBranch omitted branch = .ok (some left))
    (hb : isInline branch = false → Solid env X branch) : isInline left = false → Solid env X left := by
  rcases reduceBranch_cases hreduced with rfl | ⟨fields, reduced, rfl, rfl, href, hallOf, hreduced⟩
  · exact hb
  · intro hinline
    rw [Fields.has, ← get?_withoutProperties hreduced (by decide)] at href hallOf
    simp [isInline, Fields.has, href, hallOf] at hinline

variable (h : InnerHolds T X (Known env X) (BranchPart branch) inner inner')
include h

theorem extension_extends {omitted : List Scalar} {fields : Fields}
    (hreduced : reduceBranch omitted branch = .ok (some (.object fields)))
    (hsolid : isInline (.object fields) = false → Solid env X (.object fields)) :
    Same X (fun n => n.isSome = true) (extension env inner omitted fields)
      (extension env inner' omitted fields) := by
  have hshape : ∀ e : Expression, Same X (fun n => n.isSome = true)
      (do return some (Node.member (← omitting omitted e).toNode "shape"))
      (do return some (Node.member (← omitting omitted e).toNode "shape")) :=
    fun e => Same.liftBind fun e' _ => .pure (by simp)
  refine Same.ite (fun href => ?_) fun href => Same.ite (fun hallOf => ?_) fun _ => ?_
  · have hs := hsolid (by simp [isInline, href])
    refine (h.branch (.whole hreduced)).bind fun e he => ?_
    exact Same.ite (fun _ => hshape e) fun hname => absurd (he.2.isBareName hs href) hname
  · have hs := hsolid (by simp [isInline, hallOf])
    refine (h.branch (.whole hreduced)).bind fun e he => ?_
    have hcallable := he.2.solid hs
    refine Same.ite (fun hguard => ?_) fun _ => hshape e
    simp [hcallable.isNullable, hcallable.hasModifier_and, hcallable.exposesShape] at hguard
  · exact (compileShape_holds h fun _ _ _ hd hv => .property hreduced hd hv).bind fun n _ => .pure rfl

theorem mergeBranch_extends {m : Merge} (hm : m.extensible = true ∧ Callable m.result)
    {omitted : List Scalar} (hb : isInline branch = false → Solid env X branch) :
    Same X (fun m => m.extensible = true ∧ Callable m.result) (mergeBranch env inner m branch omitted)
      (mergeBranch env inner' m branch omitted) := by
  refine Same.liftBind fun reduced hreduced => ?_
  cases reduced with
  | none => exact .pure hm
  | some left =>
    have hleft := solid_of_reduceBranch hreduced hb
    cases left with
    | scalar s => cases hleft rfl
    | list vs => cases hleft rfl
    | object fields =>
      refine Same.iteBind (fun _ => extension_extends h hreduced hleft)
        (fun hext => absurd hm.1 hext) fun argument hargument => ?_
      cases argument with
      | none => cases hargument
      | some shape => exact .pure ⟨hm.1, hm.2.andThen (by decide) (by decide)⟩

end Branches

section Branches

variable {inner inner' : Inner}

theorem mergeBranches_extends : ∀ {branches : List (Value × List Scalar)} {m : Merge},
    m.extensible = true ∧ Callable m.result →
    (∀ b ∈ branches, InnerHolds T X (Known env X) (BranchPart b.1) inner inner') →
    (∀ b ∈ branches, isInline b.1 = false → Solid env X b.1) →
    Same X (fun m => m.extensible = true ∧ Callable m.result) (mergeBranches env inner m branches)
      (mergeBranches env inner' m branches)
  | [], _, hm, _, _ => .pure hm
  | (branch, omitted) :: rest, _, hm, h, hb => by
    obtain ⟨hbranch, hrest⟩ := List.forall_mem_cons.mp h
    obtain ⟨hs, hsrest⟩ := List.forall_mem_cons.mp hb
    exact (mergeBranch_extends hbranch hm hs).bind fun _ hm => mergeBranches_extends hm hrest hsrest

/-- **Branches that extend the first one compile to something that can be extended further.** -/
theorem compileAllOf_extends {branches : List Value} {nullable : Bool}
    (hseveral : 2 ≤ branches.length) (hext : Extends env X branches)
    (h : ∀ b ∈ branches, InnerHolds T X (Known env X) (BranchPart b) inner inner') :
    Same X (fun e => ∃ r, Callable r ∧ e = r.nullableIf nullable)
      (compileAllOf env inner branches nullable) (compileAllOf env inner' branches nullable) := by
  unfold compileAllOf
  split
  · exact absurd hseveral (by simp)
  · refine Same.liftBind fun scan _ => ?_
    refine (Same.forM fun c _ => Same.addConflict c).bind fun _ _ => ?_
    split
    · exact Same.fail _
    · rename_i first rest _ _
      obtain ⟨hfirst, hrest⟩ := List.forall_mem_cons.mp h
      refine (hfirst.branch (.self _)).bind fun head hhead => ?_
      have hcallable : Callable head := hhead.2.solid (hext.head first rfl)
      rw [if_pos hcallable.exposesShape, if_pos hcallable.exposesShape, hext.alike]
      refine (Same.pure (Q := fun x => x = true) rfl).bind fun extensible hx => ?_
      refine (mergeBranches_extends ⟨hx, hcallable⟩ (fun b hb => hrest _ (List.of_mem_zip hb).1)
        fun b hb => hext.others _ (List.of_mem_zip hb).1).bind fun m hm => .pure ⟨_, ?_, rfl⟩
      split
      · exact hm.2
      · exact hm.2.andThen (by decide) (by decide)

end Branches

/-! ## Solid schemas -/

theorem InnerHolds.branches {inner inner' : Inner} {fields : Fields} {branches : List Value}
    {F : Value → Expression → Prop} (h : InnerHolds T X F (PartOf fields) inner inner')
    (hform : classify fields = .ok (.allOf branches)) :
    ∀ b ∈ branches, InnerHolds T X F (BranchPart b) inner inner' := by
  intro b hb v flag hv
  obtain ⟨value, held, walked⟩ := walk_of_classify_allOf hform
  exact h v flag (.branch (by decide) held walked hb hv)

/-- The check of unevaluated properties leaves an object one. -/
theorem checkUnevaluated_callable {inner inner' : Inner} {fields : Fields}
    {F : Value → Expression → Prop} (h : InnerHolds T X F (PartOf fields) inner inner')
    (he : Callable e) :
    Same X Callable (checkUnevaluated env inner fields e) (checkUnevaluated env inner' fields e) := by
  have hadmits : Callable (admitUnevaluated e) := by
    unfold admitUnevaluated
    dsimp only
    split
    · exact he.andThen (by decide) (by decide)
    · exact he
  have hrefined : ∀ args : List Node,
      Callable (((admitUnevaluated e).andThen "refine" args).nullableIf false) :=
    fun args => hadmits.andThen (by decide) (by decide)
  unfold checkUnevaluated
  dsimp only
  rw [he.isNullable]
  split
  · exact Same.liftBind fun names _ => Same.liftBind fun evaluated _ => .pure (hrefined _)
  · rename_i rule hrule
    have hpart : PartOf fields (.object rule) := .of_value (by decide) hrule
    refine Same.liftBind fun names _ => Same.liftBind fun evaluated _ => ?_
    refine Same.bind (Q := fun checked => Callable (checked.nullableIf false)) ?_ fun _ hc => .pure hc
    exact (h.holds hpart true).bind fun r _ => .pure (hrefined _)
  · exact .pure he

section Classified

variable {inner inner' : Inner} {schema fields : Fields} {form : Form}
  (h : InnerHolds callsCondition X (Known env X) (PartOf fields) inner inner')
  (hvisible : visibleFields env schema = .ok fields) (hform : classify fields = .ok form)
include h

theorem compileObjectForm_callable {constrained : Bool} (hshaped : HasShape env fields constrained) :
    Same X Callable (compileObjectForm env inner fields constrained)
      (compileObjectForm env inner' fields constrained) := by
  have hdescribed : ∀ e : Expression, Callable e →
      Callable (e.describe (fields.value "description") env.describes) := by
    intro e he
    unfold Expression.describe
    split
    · split
      · exact he.andThen (by decide) (by decide)
      · exact he
    · exact he
  unfold compileObjectForm
  refine Same.ite (fun _ => ?_) fun hc => ?_
  · refine (compileObject_holds h).bind fun e he => ?_
    exact (checkUnevaluated_callable h he.calls).bind fun e he => .pure (hdescribed e he)
  · rcases hshaped with hconstrained | hfalse | ⟨hvalues, hempty⟩
    · exact absurd hconstrained hc
    · rw [hfalse]
      exact .pure (hdescribed _ (.of_call (by decide)))
    · split
      · rename_i hv
        rw [hv] at hvalues
        cases hvalues
      · exact .pure (hdescribed _ (.of_call (by decide)))
      · refine .pure (hdescribed _ ?_)
        cases hmode : env.context.emptyObject with
        | strict => exact .of_call (by decide)
        | loose => exact .of_call (by decide)
        | record => exact absurd hmode hempty

include hvisible hform

/-- **As a branch, a solid schema compiles to an object or a name.** -/
theorem compileClassified_callable (hs : Solid env X (.object schema)) :
    Same X Callable (compileClassified env (compileReference env) inner fields false true form)
      (compileClassified env (compileReference env) inner' fields false true form) := by
  have hsame : ∀ {fields' form'}, visibleFields env schema = .ok fields' →
      classify fields' = .ok form' → fields' = fields ∧ form' = form := by
    intro fields' form' hv hf
    obtain rfl : fields' = fields := by simpa [hvisible] using hv.symm
    exact ⟨rfl, by simpa [hform] using hf.symm⟩
  cases hs with
  | object visible hobject nonnull shaped =>
    obtain ⟨rfl, rfl⟩ := hsame visible hobject
    refine (compileObjectForm_callable h shaped).bind fun e he => .pure ?_
    simpa [defaultApplies, nonnull, Expression.nullableIf] using he
  | name visible hname nonnull prompt =>
    obtain ⟨rfl, rfl⟩ := hsame visible hname
    refine compileReference_same.bind fun e he => .pure ?_
    cases he with
    | deferred known resolved named defer =>
      rw [prompt _ resolved] at defer
      cases defer
    | plain known resolved named defer =>
      simpa [defaultApplies, nonnull, Expression.nullableIf] using Callable.of_isBareName rfl
  | single visible hallOf nonnull branch =>
    obtain ⟨rfl, rfl⟩ := hsame visible hallOf
    refine Same.bind (Q := Callable) ?_ fun e he => checkUnevaluated_callable h he
    have hbranch := h.branches hform _ List.mem_cons_self
    refine (hbranch.branch (.self _)).bind fun e he => .pure ?_
    simpa [nonnull, Expression.nullableIf] using he.2.solid branch
  | several visible hallOf nonnull several alike head others =>
    obtain ⟨rfl, rfl⟩ := hsame visible hallOf
    refine (compileAllOf_extends several ⟨alike, head, others⟩ (h.branches hform)).bind
      fun e he => ?_
    obtain ⟨r, hr, rfl⟩ := he
    rw [nonnull]
    exact checkUnevaluated_callable h hr

end Classified

/-! ## References -/

/-- As a branch, a reference compiles to nothing but a reference. -/
theorem compileClassified_reference {inner : Inner} {schema fields : Fields} {form : Form}
    (hvisible : visibleFields env schema = .ok fields) (hform : classify fields = .ok form)
    (hs : IsReference env (.object schema)) :
    Same X (fun e => e.outline = ⟨.name, []⟩ ∨ e.outline = ⟨.deferred, []⟩)
      (compileClassified env (compileReference env) inner fields false true form)
      (compileClassified env (compileReference env) inner fields false true form) := by
  cases hs with
  | mk visible href nonnull =>
    rw [hvisible, Except.ok.injEq] at visible
    subst visible
    rw [hform, Except.ok.injEq] at href
    subst href
    refine compileReference_same.bind fun e he => .pure ?_
    simp only [defaultApplies, Bool.not_true, Bool.and_false, Bool.false_and, nonnull,
      Expression.nullableIf]
    cases he with
    | deferred => exact Or.inr rfl
    | plain => exact Or.inl rfl

/-! ## Schemas that fit -/

/-- A branch that other branches may extend: solid, or a reference, which is only extended if it is
not deferred. -/
def Extensible (env : Environment) (X : String) (v : Value) : Prop :=
  Solid env X v ∨ IsReference env v

/-- Where a schema of a form calls methods of objects on branches, these are objects. -/
structure BranchesFit (env : Environment) (X : String) (fields : Fields) (form : Form) : Prop where
  /-- The first of several branches that all describe objects is extended by the others. -/
  head : ∀ {first second rest}, form = .allOf (first :: second :: rest) →
    allObjectLike env.schemas (first :: second :: rest) = .ok true → Extensible env X first
  /-- A nested composition may lose properties that are defined before it. -/
  nested : ∀ {branches scan}, form = .allOf branches →
    scanBranches env.schemas branches = .ok scan →
    ∀ b ∈ branches.zip scan.overridden, isNested b.1 = true → b.2 ≠ [] → Solid env X b.1
  /-- The branches of a union let other properties pass to a check. -/
  admitting : ∀ {kind branches discriminator mapping},
    form = .union kind branches discriminator mapping →
    fields.has "unevaluatedProperties" = true → 2 ≤ branches.length →
    ∀ b, Selectable branches mapping b → Solid env X b
  /-- And so does what several branches were put together to. -/
  checkedAllOf : ∀ {branches}, form = .allOf branches → isChecked fields = true →
    2 ≤ branches.length → Extends env X branches
  checkedOne : ∀ {b}, (form = .allOf [b] ∨
      ∃ kind discriminator mapping, form = .union kind [b] discriminator mapping) →
    isChecked fields = true → Extensible env X b

theorem Known.admits {v : Value} (h : Known env X v e) (hv : Extensible env X v) (nullable : Bool) :
    Admits callsCondition (e.nullableIf nullable) := by
  rcases hv with hs | hr
  · have hcallable := h.solid hs
    exact admits_nullableIf hcallable.isNullable (Or.inl hcallable) _
  · have hplain : e.callee = none ∧ e.hasModifier "extend" = false ∧ e.isNullable = false := by
      rcases h.reference hr with h | h
      · have houtline : e.outline = (plainRef "").outline := h
        exact ⟨callee_congr houtline, hasModifier_congr houtline _, isNullable_congr houtline⟩
      · have houtline : e.outline = (deferredRef "" "").outline := h
        exact ⟨callee_congr houtline, hasModifier_congr houtline _, isNullable_congr houtline⟩
    obtain ⟨hcallee, hextend, hnull⟩ := hplain
    exact admits_nullableIf hnull (Or.inr (by simp [admitUnevaluated, hcallee, hextend])) _

/-- A branch that exposes its shape can be extended. -/
theorem Known.callable {v : Value} (h : Known env X v e) (hv : Extensible env X v)
    (hshape : e.exposesShape = true) : Callable e := by
  rcases hv with hs | hr
  · exact h.solid hs
  · rcases h.reference hr with h | h
    · exact .of_isBareName ((isBareName_iff e).mpr h)
    · exact absurd hshape (by simp [exposesShape_iff, h])

/-- What the branches of an `allOf` are put together to lets other properties through to a check. -/
theorem compileAllOf_admits {inner inner' : Inner} {fields : Fields} {branches : List Value}
    (hfits : BranchesFit env X fields (.allOf branches)) (hchecked : isChecked fields = true)
    (h : ∀ b ∈ branches, InnerHolds callsCondition X (Known env X) (BranchPart b) inner inner')
    (nullable : Bool) :
    Same X (Admits callsCondition) (compileAllOf env inner branches nullable)
      (compileAllOf env inner' branches nullable) := by
  match branches with
  | [] =>
    refine Same.liftBind fun scan _ => ?_
    exact (Same.forM fun c _ => Same.addConflict c).bind fun _ _ => Same.fail _
  | [b] =>
    refine ((h b List.mem_cons_self).branch (.self b)).bind fun e he => .pure ?_
    exact he.2.admits (hfits.checkedOne (Or.inl rfl) hchecked) _
  | first :: second :: rest =>
    have hseveral : 2 ≤ (first :: second :: rest).length := by simp
    have hextends := hfits.checkedAllOf rfl hchecked hseveral
    refine (compileAllOf_extends hseveral hextends h).mono ?_
    rintro _ ⟨r, hr, rfl⟩
    exact admits_nullableIf hr.isNullable (Or.inl hr) _

/-- **A schema that fits has objects where methods of objects are called.** -/
theorem BranchesFit.sites {fields : Fields} {form : Form} (hfits : BranchesFit env X fields form)
    (hform : classify fields = .ok form) :
    FormSites callsCondition X (Known env X) env fields form where
  allOf hbranches :=
    { head := fun hb hlike e he hshape => by
        subst hb
        exact he.callable (hfits.head hbranches hlike) hshape
      nested := fun hscan b hb hn hlost e he => he.solid (hfits.nested hbranches hscan b hb hn hlost) }
  admitting hunion hhas hseveral b hb e he _ := he.solid (hfits.admitting hunion hhas hseveral b hb)
  checkedAllOf hbranches hchecked inner inner' h := by
    subst hbranches
    exact (compileAllOf_admits hfits hchecked (h.branches hform) _).gives
  checkedUnion hunion hchecked e he :=
    he.admits (hfits.checkedOne (Or.inr ⟨_, _, _, hunion⟩) hchecked) _

/-! ## Named schemas -/

/-- Every schema object that is compiled on the way when a definition is compiled fits. -/
def AllBranchesFit (env : Environment) (X : String) (v : Value) : Prop :=
  ∀ {schema fields form}, Inside env v (.object schema) → visibleFields env schema = .ok fields →
    classify fields = .ok form → BranchesFit env X fields form

theorem RefersTo.callObjects {R : String} (he : RefersTo env X R e) : AllCallObjects e.toNode := by
  cases he with
  | deferred =>
    refine allCallObjects_toNode.mpr ⟨.nil _, fun base modifiers h => ?_, by simp [deferredRef]⟩
    simp [deferredRef, Node.walk] at h
  | plain =>
    refine allCallObjects_toNode.mpr ⟨.nil _, fun base modifiers h => ?_, by simp [plainRef]⟩
    simp [plainRef, Node.walk] at h

theorem treeRules_calls {v : Value} (hctx : env.context.Built) (hfits : AllBranchesFit env X v) :
    TreeRules callsCondition X (Known env X) env (compileReference env) (compileReference env)
      (Inside env v) where
  dateTime := hctx.holds_dateTime
  parts hs hfields hpart := .part hs hfields hpart
  references _ _ _ _ := compileReference_same.mono fun _ he => he.callObjects
  sites hs hfields hform := (hfits hs hfields hform).sites hform
  branch _ hfields hform _ _ h p e q hp he :=
    { solid := fun hsolid => (compileClassified_callable h hfields hform hsolid).gives p e q hp he
      reference := fun href => (compileClassified_reference hfields hform href).gives p e q hp he }
  truth _ _ := ⟨nofun, nofun⟩

/--
**Methods of objects are called on objects only.** If the schemas that are compiled on the way fit,
then in every chain of a compiled definition `extend`, `omit` and `catchall` come before any
`nullable` or `and`, and the chain starts neither with a deferred reference nor with a call of another
constructor than those of objects.
-/
theorem object_calls_on_objects (hctx : env.context.Built) {v : Value}
    (hfits : AllBranchesFit env X v) {p q : Progress} {s : Session}
    (h : (compileNamed env X v).run p = (.ok (e, s), q)) : AllCallObjects e.toNode :=
  (treeRules_calls hctx hfits).holds_compileNamedWith .self h

/-! ## An object that extends another, and one that cannot -/

/-- An object with one property. -/
def oneProperty (name : String) : Fields :=
  [(.text "type", .text "object"),
   (.text "properties", .object [(.text name, .object [(.text "type", .text "string")])])]

/-- Two objects put together to one that allows no other properties. -/
def closedPair : Fields :=
  [(.text "allOf", .list [refTo "B", refTo "C"]), (.text "unevaluatedProperties", .bool false)]

/-- The closed pair under the name `A`, with its parts. -/
def pairSchemas : Fields :=
  [(.text "A", .object closedPair), (.text "B", .object (oneProperty "b")),
   (.text "C", .object (oneProperty "c"))]

theorem eq_of_branchPart_refTo {name : String} {w : Value} (h : BranchPart (refTo name) w) :
    w = refTo name := by
  have hkept : ∀ {omitted left}, reduceBranch omitted (refTo name) = .ok (some left) →
      left = refTo name := by
    intro omitted left h
    rcases reduceBranch_cases h with heq | ⟨fields, _, heq, -, href, -⟩
    · exact heq
    · cases heq
      cases href
  cases h with
  | whole reduced => exact hkept reduced
  | property reduced declared held =>
    cases hkept reduced
    cases declared
    cases held

theorem inside_closedPair {w : Value} (h : Inside env (.object closedPair) w) :
    w = .object closedPair ∨ w = refTo "B" ∨ w = refTo "C" := by
  induction h with
  | self => exact Or.inl rfl
  | part inside visible part ih =>
    rcases ih with heq | heq | heq
    all_goals
      cases heq
      cases visible
    · have honly : OnlyAllOf closedPair := by decide
      obtain ⟨value, branches, b, held, walked, listed, hb⟩ := honly.part part
      cases held
      cases walked
      simp only [List.mem_cons, List.not_mem_nil, or_false] at listed
      rcases listed with rfl | rfl
      · exact Or.inr (Or.inl (eq_of_branchPart_refTo hb))
      · exact Or.inr (Or.inr (eq_of_branchPart_refTo hb))
    · have honly : OnlyAllOf [(.text "$ref", .text "#/components/schemas/B")] := by decide
      obtain ⟨value, branches, b, held, -⟩ := honly.part part
      cases held
    · have honly : OnlyAllOf [(.text "$ref", .text "#/components/schemas/C")] := by decide
      obtain ⟨value, branches, b, held, -⟩ := honly.part part
      cases held

theorem branchesFit_closedPair {form : Form} (hform : classify closedPair = .ok form)
    (halike : allObjectLike env.schemas [refTo "B", refTo "C"] = .ok true)
    (hsolid : ∀ b ∈ [refTo "B", refTo "C"], Solid env X b) : BranchesFit env X closedPair form := by
  obtain rfl : Form.allOf [refTo "B", refTo "C"] = form := by
    cases hform
    rfl
  refine ⟨?_, ?_, nofun, ?_, ?_⟩
  · rintro first second rest ⟨⟩ -
    exact Or.inl (hsolid _ List.mem_cons_self)
  · rintro branches scan ⟨⟩ - b hb - -
    exact hsolid _ (List.of_mem_zip hb).1
  · rintro branches ⟨⟩ - -
    exact
      { alike := halike
        head := fun first hfirst => hsolid first (List.mem_of_mem_head? hfirst)
        others := fun b hb _ => hsolid b (List.mem_of_mem_tail hb) }
  · rintro b (h | ⟨_, _, _, h⟩) <;> cases h

theorem object_calls_on_objects_closedPair :
    ∃ env p e s q, Environment.ofSchemas pairSchemas = .ok env ∧
      (compileNamed env "A" (.object closedPair)).run p = (.ok (e, s), q) ∧
      e.modifierNames = ["extend", "catchall", "refine"] ∧ AllCallObjects e.toNode := by
  obtain ⟨env, henv, halike, hprompt, hnames⟩ : ∃ env,
      Environment.ofSchemas pairSchemas = .ok env ∧
      (allObjectLike env.schemas [refTo "B", refTo "C"]).toOption = some true ∧
      (∀ name ∈ ["B", "C"], (resolveAlias env.schemas name).toOption = some name ∧
        mustDefer env "A" name name = false) ∧
      ((compileNamed env "A" (.object closedPair)).run ⟨{}, env.caches, []⟩).1.toOption.map
        (fun r => r.1.modifierNames) = some ["extend", "catchall", "refine"] :=
    ⟨_, rfl, by decide +kernel, by decide +kernel, by decide +kernel⟩
  rw [Outcome.toOption_eq_some] at halike
  have hresolved : ∀ name ∈ ["B", "C"], ∀ r, resolveAlias env.schemas name = .ok r →
      mustDefer env "A" name r = false := by
    intro name hname r hr
    obtain ⟨hself, hdefer⟩ := hprompt name hname
    rw [Outcome.toOption_eq_some] at hself
    cases hself.symm.trans hr
    exact hdefer
  have hsolid : ∀ b ∈ [refTo "B", refTo "C"], Solid env "A" b := by
    simp only [List.forall_mem_cons, List.not_mem_nil, false_implies, implies_true, and_true]
    exact ⟨.name rfl rfl rfl (hresolved "B" (by decide)),
      .name rfl rfl rfl (hresolved "C" (by decide))⟩
  have hfits : AllBranchesFit env "A" (.object closedPair) := by
    intro schema fields form hinside hvisible hform
    rcases inside_closedPair hinside with heq | heq | heq
    · cases heq
      cases hvisible
      exact branchesFit_closedPair hform halike hsolid
    all_goals
      cases heq
      cases hvisible
      cases hform
      exact ⟨nofun, nofun, nofun, nofun, by rintro b (h | ⟨_, _, _, h⟩) <;> cases h⟩
  obtain ⟨⟨e, s⟩, hrun, hnames⟩ := Option.map_eq_some_iff.mp hnames
  rw [Outcome.toOption_eq_some] at hrun
  have hctx : env.context.Built := by
    obtain ⟨context, hctx, h⟩ := Outcome.bind_eq_ok.mp henv
    obtain ⟨graph, -, h⟩ := Outcome.bind_eq_ok.mp h
    obtain ⟨table, -, h⟩ := Outcome.bind_eq_ok.mp (lift_eq_ok h)
    cases h
    exact .config hctx
  exact ⟨env, _, e, s, _, henv, Prod.ext hrun rfl, hnames,
    object_calls_on_objects hctx hfits (Prod.ext hrun rfl)⟩

/-- Two objects, the first of which lets null pass. -/
def nullableHead : Fields :=
  [(.text "allOf", .list
    [.object (oneProperty "a" ++ [(.text "nullable", .bool true)]), .object (oneProperty "b")])]

/-- The object is extended after it was made nullable. -/
theorem object_calls_after_nullable :
    ∃ env p e s q, Environment.ofSchemas [(.text "A", .object nullableHead)] = .ok env ∧
      (compileNamed env "A" (.object nullableHead)).run p = (.ok (e, s), q) ∧
      e.callee = some "z.object" ∧ e.modifierNames = ["nullable", "extend"] ∧
      ¬ AllCallObjects e.toNode := by
  obtain ⟨env, henv, hshown⟩ : ∃ env,
      Environment.ofSchemas [(.text "A", .object nullableHead)] = .ok env ∧
      ((compileNamed env "A" (.object nullableHead)).run ⟨{}, env.caches, []⟩).1.toOption.map
        (fun r => (r.1.callee, r.1.modifierNames)) = some (some "z.object", ["nullable", "extend"]) :=
    ⟨_, rfl, by decide +kernel⟩
  obtain ⟨⟨e, s⟩, hrun, hnames⟩ := Option.map_eq_some_iff.mp hshown
  rw [Outcome.toOption_eq_some] at hrun
  obtain ⟨hcallee, hnames⟩ := Prod.mk.inj hnames
  refine ⟨env, _, e, s, _, henv, Prod.ext hrun rfl, hcallee, hnames, fun hall => ?_⟩
  have hcalls : CallsObjects e := (allCallObjects_toNode.mp hall).1
  have hbefore : "nullable" ∉ ["nullable"] ∧ "and" ∉ ["nullable"] := hcalls.names hnames (by decide)
  exact hbefore.1 (by decide)

end Compile

end SchemaForge
