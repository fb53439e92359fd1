import SchemaForge.Proofs.Compile.Comparison
import SchemaForge.Proofs.Compile.Parts
import SchemaForge.Proofs.Compile.Visible
import SchemaForge.Proofs.Expression.Outline

/-!
# Compiling a schema twice

A schema is compiled twice, in two environments or from two states of the caches, and the schemas
inside it are too. If they come out alike then so does the whole: always in outline, and in full
where they do (`P` says whether that is asked). In outline only the branches of compositions and
other schemas that are compiled as such have to agree, since nothing else of what was compiled is
ever looked at.

The statements follow the parts of the compiler, and each asks of the schemas inside only those that
are parts of the schema.
-/

namespace SchemaForge.Compile

open Comparison Schema

/-! ## What is compared -/

/-- Two environments that say the same about everything but references, the default for null and
the limit on depth. -/
structure ReadsAs (env env' : Environment) : Prop where
  schemas : env.schemas = env'.schemas
  visibility : env.context.visibility = env'.context.visibility
  mode : env.context.mode = env'.context.mode
  emptyObject : env.context.emptyObject = env'.context.emptyObject
  dateTime : env.context.dateTime = env'.context.dateTime
  describes : env.describes = env'.describes
  comments : env.comments = env'.comments

/-- Each environment reads as itself. -/
theorem ReadsAs.refl (env : Environment) : ReadsAs env env := ⟨rfl, rfl, rfl, rfl, rfl, rfl, rfl⟩

/-- Two expressions with one outline, and the same if `P` holds. -/
structure Matched (P : Prop) (e e' : Expression) : Prop where
  outline : e.outline = e'.outline
  eq : P → e = e'

/-- Lists of modifiers with the same names, and the same if `P` holds. -/
structure ModifiersMatched (P : Prop) (ms ms' : List Modifier) : Prop where
  names : ms.map Modifier.name = ms'.map Modifier.name
  eq : P → ms = ms'

/-- What has to agree in the results of schemas inside another. -/
def InnerMatched (P : Prop) (branch : Bool) (e e' : Expression) : Prop :=
  (branch = true → e.outline = e'.outline) ∧ (P → e = e')

/-- Two ways to compile schemas inside another agree on the values with a property. -/
def InnerAlike (C : Comparison) (P : Prop) (D : Value → Prop) (inner inner' : Inner) : Prop :=
  ∀ v branch, D v → C.Alike (InnerMatched P branch) (inner v branch) (inner' v branch)

variable {C : Comparison} {P : Prop} {e e' : Expression}

namespace Matched

theorem refl (e : Expression) : Matched P e e := ⟨rfl, fun _ => rfl⟩

/-- What is matched as a branch is matched. -/
theorem of_inner (h : InnerMatched P true e e') : Matched P e e' := ⟨h.1 rfl, h.2⟩

theorem zod {name : String} {args args' : List Node} (h : P → args = args') :
    Matched P (zod name args) (SchemaForge.zod name args') := by
  refine ⟨rfl, fun hP => ?_⟩
  rw [h hP]

/-- The same call on both sides; its arguments agree where the condition holds. -/
theorem andThen (h : Matched P e e') (name : String) {args args' : List Node}
    (hargs : P → args = args') : Matched P (e.andThen name args) (e'.andThen name args') := by
  refine ⟨Expression.outline_andThen_congr h.outline _ _ _, fun hP => ?_⟩
  rw [h.eq hP, hargs hP]

/-- A choice that both sides make alike. -/
theorem ite {c : Prop} [Decidable c] {d d' : Expression} (h : Matched P e e')
    (hd : Matched P d d') : Matched P (if c then e else d) (if c then e' else d') := by
  split
  · exact h
  · exact hd

theorem nullableIf (h : Matched P e e') (nullable : Bool) :
    Matched P (e.nullableIf nullable) (e'.nullableIf nullable) := by
  refine ⟨Expression.outline_nullableIf_congr h.outline _, fun hP => ?_⟩
  rw [h.eq hP]

theorem describe (h : Matched P e e') (description : Value) (asked : Bool) :
    Matched P (e.describe description asked) (e'.describe description asked) := by
  refine ⟨Expression.outline_describe_congr h.outline _ _, fun hP => ?_⟩
  rw [h.eq hP]

/-- The last call is taken off both sides. -/
theorem dropLast (h : Matched P e e') :
    Matched P ⟨e.base, e.modifiers.dropLast⟩ ⟨e'.base, e'.modifiers.dropLast⟩ := by
  refine ⟨Expression.outline_dropLast_congr h.outline, fun hP => ?_⟩
  rw [h.eq hP]

/-- Calls at the end of both chains, which agree in their names. -/
theorem append {ms ms' : List Modifier} (h : Matched P e e') (hms : ModifiersMatched P ms ms') :
    Matched P ⟨e.base, e.modifiers ++ ms⟩ ⟨e'.base, e'.modifiers ++ ms'⟩ := by
  refine ⟨?_, fun hP => ?_⟩
  · have happend : ∀ (e : Expression) (ms : List Modifier),
        (⟨e.base, e.modifiers ++ ms⟩ : Expression).outline =
          ⟨e.outline.head, e.outline.names ++ ms.map Modifier.name⟩ := by
      intro e ms
      simp [Expression.outline, Expression.modifierNames]
    rw [happend, happend, h.outline, hms.names]
  · rw [h.eq hP, hms.eq hP]

theorem admitAll (h : Matched P e e') : Matched P (admitAll e) (Compile.admitAll e') :=
  h.andThen _ fun _ => rfl

theorem ensureAdmits (h : Matched P e e') :
    Matched P (ensureAdmits e) (Compile.ensureAdmits e') := by
  unfold Compile.ensureAdmits
  rw [Expression.hasModifier_congr h.outline]
  split
  · exact h
  · exact h.admitAll

/-- Whether other properties may pass is decided by the outline, which both sides share. -/
theorem admitUnevaluated (h : Matched P e e') :
    Matched P (admitUnevaluated e) (Compile.admitUnevaluated e') := by
  unfold Compile.admitUnevaluated
  dsimp only
  rw [Expression.hasModifier_congr h.outline, Expression.hasModifier_congr h.outline,
    Expression.callee_congr h.outline]
  split
  · exact h.admitAll
  · exact h

end Matched

/-- If two lists agree item by item in full, they are equal. -/
theorem eq_of_forall₂ {α : Type} {Q : α → α → Prop} {xs ys : List α} (h : List.Forall₂ Q xs ys)
    (hQ : ∀ x y, Q x y → x = y) : xs = ys := by
  induction h with
  | nil => rfl
  | cons hxy _ ih => rw [hQ _ _ hxy, ih]

theorem ModifiersMatched.refl (ms : List Modifier) : ModifiersMatched P ms ms :=
  ⟨rfl, fun _ => rfl⟩

/-- Lists of rules, one after another. -/
theorem ModifiersMatched.flatten {found found' : List (List Modifier)}
    (h : List.Forall₂ (ModifiersMatched P) found found') :
    ModifiersMatched P found.flatten found'.flatten := by
  induction h with
  | nil => exact .refl _
  | @cons ms ms' found found' hms _ ih =>
    refine ⟨?_, fun hP => ?_⟩
    · rw [List.flatten_cons, List.flatten_cons, List.map_append, List.map_append, hms.names,
        ih.names]
    · rw [List.flatten_cons, List.flatten_cons, hms.eq hP, ih.eq hP]

/-- Two rules have one name, and one code where the condition holds. -/
theorem superRefine_matched {parts parts' : List Part} (h : P → parts = parts') :
    ModifiersMatched P [superRefine parts] [superRefine parts'] := by
  refine ⟨rfl, fun hP => ?_⟩
  rw [h hP]

/-! ## Strings -/

section Strings

variable {env env' : Environment} {schema : Fields} (hC : C.Steady)
include hC

/-- Constraints on strings read no schema inside, so both sides do the same. -/
theorem stringConstraints_alike {e : Expression} :
    C.Alike Eq (stringConstraints schema e) (stringConstraints schema e) := by
  refine Alike.ite (fun _ => ?_) fun _ => .pure rfl
  refine (hC.escapedPattern _).bind fun source source' hsource => .pure ?_
  rw [hsource]

/-- **Strings are compiled alike** wherever the environments read as each other. -/
theorem compileString_alike (henv : ReadsAs env env') :
    C.Alike Eq (compileString env schema) (compileString env' schema) := by
  have hbase : formatBase env' schema = formatBase env schema := by
    simp only [formatBase, henv.dateTime]
  unfold compileString
  rw [hbase, ← henv.describes]
  refine Alike.liftBind fun base _ => ?_
  refine (stringConstraints_alike hC).bind fun e e' he => ?_
  subst he
  refine Alike.ite (fun _ => ?_) fun _ => Alike.ite (fun _ => ?_) fun _ => .pure rfl
  · refine Alike.liftBind fun encoded _ => (stringConstraints_alike hC).bind fun e e' he => ?_
    subst he
    exact .pure rfl
  · refine Alike.liftBind fun rule _ => ?_
    cases rule with
    | some rule => exact .pure rfl
    | none => exact .pure rfl

end Strings

/-! ## Arrays -/

section Arrays

variable {env env' : Environment} {inner inner' : Inner} {schema : Fields}
  (h : InnerAlike C P (PartOf schema) inner inner')
include h

theorem compileTuple_alike :
    C.Alike (Matched P) (compileTuple inner schema) (compileTuple inner' schema) := by
  refine Alike.liftBind fun places hplaces => ?_
  refine (Alike.mapM fun v hv => h v false (.place hplaces hv)).bind fun es es' hes => ?_
  have htuple : Matched P (zod "tuple" [.array (es.map Expression.toNode)])
      (zod "tuple" [.array (es'.map Expression.toNode)]) := by
    refine .zod fun hP => ?_
    rw [eq_of_forall₂ hes fun x y hxy => hxy.2 hP]
  refine Alike.ite (fun hrest => ?_) fun _ => Alike.ite (fun _ => .pure ?_) fun _ => .pure htuple
  · have hpart : PartOf schema (if (schema.value "items").isObject then schema.value "items"
        else schema.value "unevaluatedItems") := by
      by_cases hitems : (schema.value "items").isObject = true
      · rw [if_pos hitems] at hrest ⊢
        exact .keyword (by decide) hrest
      · rw [if_neg hitems] at hrest ⊢
        exact .keyword (by decide) hrest
    refine (h _ false hpart).bind fun rest rest' hr => .pure (htuple.andThen _ fun hP => ?_)
    rw [hr.2 hP]
  · exact htuple.andThen _ fun _ => rfl

theorem compileList_alike :
    C.Alike (Matched P) (compileList inner schema) (compileList inner' schema) := by
  refine Alike.iteBind (Q := fun e e' => P → e = e') (fun hitems => ?_) (fun _ => .pure fun _ => rfl)
    fun item item' hitem => .pure ?_
  · exact (h _ false (.keyword (by decide) hitems)).mono fun _ _ hr => hr.2
  · have harray : Matched P (zod "array" [item.toNode]) (zod "array" [item'.toNode]) := by
      refine .zod fun hP => ?_
      rw [hitem hP]
    refine .ite ?_ (.andThen ?_ _ fun _ => rfl)
    · exact .ite harray (harray.andThen _ fun _ => rfl)
    · exact .ite harray (harray.andThen _ fun _ => rfl)

theorem compileContains_alike {e e' : Expression} (he : Matched P e e') :
    C.Alike (Matched P) (compileContains inner schema e) (compileContains inner' schema e') := by
  refine Alike.ite (fun hcontains => ?_) fun _ => .pure he
  refine (h _ true (.keyword (by decide) hcontains)).bind fun item item' hitem => ?_
  refine .pure (he.andThen _ fun hP => ?_)
  rw [hitem.2 hP]

/-- **Arrays are compiled alike if the schemas inside are.** -/
theorem compileArray_alike (henv : ReadsAs env env') :
    C.Alike (Matched P) (compileArray env inner schema) (compileArray env' inner' schema) := by
  unfold compileArray
  rw [← henv.describes]
  refine Alike.iteBind (fun _ => compileTuple_alike h) (fun _ => compileList_alike h)
    fun e e' he => ?_
  refine (compileContains_alike h (.ite (he.andThen _ fun _ => rfl) he)).bind fun e e' he => ?_
  exact .pure (he.describe _ _)

end Arrays

/-! ## Objects -/

section Objects

variable {env env' : Environment} {inner inner' : Inner} {schema : Fields}

/-- A property, with the comment that both sides report. -/
theorem compileProperty_alike (hC : C.Steady) (henv : ReadsAs env env') {required : List Scalar}
    {comments : Bool} {name : Scalar} {definition : Value}
    (h : C.Alike (InnerMatched P false) (inner definition false) (inner' definition false)) :
    C.Alike (fun p p' => P → p = p') (compileProperty env inner required comments name definition)
      (compileProperty env' inner' required comments name definition) := by
  unfold compileProperty
  rw [← henv.comments]
  refine h.bind fun e e' he => Alike.ite (fun _ => ?_) fun _ => .pure fun hP => ?_
  · refine (hC.report _).bind fun _ _ _ => .pure fun hP => ?_
    rw [he.2 hP]
  · rw [he.2 hP]

/-- Shapes are equal where the condition holds, and otherwise shapes on both sides. -/
theorem compileShape_alike (hC : C.Steady) (henv : ReadsAs env env') {D : Value → Prop}
    (h : InnerAlike C P D inner inner') {comments : Bool}
    (hD : ∀ properties name v, (schema.value "properties").fieldsIfSet = .ok properties →
      (name, v) ∈ properties → D v) :
    C.Alike (fun n n' => P → n = n') (compileShape env inner comments schema)
      (compileShape env' inner' comments schema) := by
  unfold compileShape
  rw [← henv.visibility]
  refine Alike.liftBind fun required _ => Alike.liftBind fun properties hproperties => ?_
  refine (Alike.mapM (R := fun p p' => P → p = p') fun f hf => ?_).bind
    fun ps ps' hps => .pure fun hP => ?_
  · refine compileProperty_alike hC henv (h f.2 false (hD properties f.1 f.2 hproperties ?_))
    exact List.mem_of_mem_filter hf
  · rw [eq_of_forall₂ hps fun _ _ hp => hp hP]

variable (h : InnerAlike C P (PartOf schema) inner inner')
include h

/-- Other properties are let pass on both sides or on none. -/
theorem additional_alike (he : Matched P e e') :
    C.Alike (Matched P) (additional inner schema e) (additional inner' schema e') := by
  unfold additional
  split
  · rename_i fields hfields
    have hpart : PartOf schema (.object fields) := .of_value (by decide) hfields
    refine (h _ false hpart).bind fun r r' hr => .pure (he.andThen _ fun hP => ?_)
    rw [hr.2 hP]
  · exact .pure he.admitAll
  · exact .pure (.ite he.admitAll he)
  · exact .pure he

omit h in
theorem propertyCount_matched (he : Matched P e e') :
    Matched P (propertyCount schema e) (propertyCount schema e') :=
  .ite he (he.andThen _ fun _ => rfl)

omit h in
/-- Both sides fail alike on names that cannot be read, or add the same rule. -/
theorem undeclaredRequired_paired (he : Matched P e e') :
    Outcome.Paired (Matched P) (undeclaredRequired schema e) (undeclaredRequired schema e') := by
  refine Outcome.paired_bind fun declared _ => Outcome.paired_bind fun required _ => ?_
  dsimp only
  split
  · exact .ok he
  · refine Outcome.paired_bind fun reads _ => .ok ?_
    exact he.ensureAdmits.andThen _ fun _ => rfl

/-- Patterns are compiled in the order of the schema on both sides. -/
theorem patternProperties_alike (he : Matched P e e') :
    C.Alike (Matched P) (patternProperties inner schema e) (patternProperties inner' schema e') := by
  unfold patternProperties
  split
  · rename_i p ps hpatterns
    refine Alike.liftBind fun declared _ => ?_
    refine (Alike.mapM fun f hf => h f.2 false (.entry (by decide) hpatterns hf)).bind
      fun es es' hes => ?_
    refine Alike.liftBind fun names _ => Alike.liftBind fun sources _ => .pure ?_
    refine he.andThen _ fun hP => ?_
    rw [eq_of_forall₂ hes fun _ _ hr => hr.2 hP]
  · exact .pure he

omit h in
theorem propertyNames_paired (he : Matched P e e') :
    Outcome.Paired (Matched P) (propertyNames schema e) (propertyNames schema e') := by
  unfold propertyNames
  split
  · refine Outcome.paired_bind fun checks _ => ?_
    split
    · exact .ok he
    · exact .ok (he.andThen _ fun _ => rfl)
  · exact .ok he

/-- Each dependency adds the same number of rules on both sides. -/
theorem dependencies_alike :
    C.Alike (ModifiersMatched P) (dependencies inner schema) (dependencies inner' schema) := by
  unfold dependencies
  split
  · rename_i entries hentries
    refine Alike.bind (Q := List.Forall₂ (ModifiersMatched P)) (Alike.mapM fun f hf => ?_)
      fun found found' hfound => .pure (.flatten hfound)
    obtain ⟨property, dependency⟩ := f
    cases dependency with
    | scalar s => exact .pure (.refl _)
    | list required =>
      cases required with
      | nil => exact .pure (.refl _)
      | cons r rs => exact Alike.liftBind fun check _ => .pure (.refl _)
    | object asked =>
      refine Alike.bind (Q := fun m m' => ModifiersMatched P [m] [m']) ?_ fun m m' hm => .pure hm
      refine (h _ true (.entry (by decide) hentries hf)).bind fun r r' hr => ?_
      refine Alike.liftBind fun read _ => Alike.liftBind fun place _ => .pure ?_
      refine superRefine_matched fun hP => ?_
      rw [hr.2 hP]
  · exact .pure (.refl _)

theorem branchCheck_alike {k : String} (hk : k ∈ schemaKeywords) :
    C.Alike (fun parts parts' => P → parts = parts') (branchCheck inner (schema.value k))
      (branchCheck inner' (schema.value k)) := by
  refine Alike.ite (fun hb => ?_) fun _ => .pure fun _ => rfl
  refine (h _ true (.keyword hk hb)).bind fun r r' hr => .pure fun hP => ?_
  rw [hr.2 hP]

theorem ifThenElse_alike :
    C.Alike (ModifiersMatched P) (ifThenElse inner schema) (ifThenElse inner' schema) := by
  refine Alike.ite (fun hc => ?_) fun _ => .pure (.refl _)
  have hif : (schema.value "if").isObject = true := (Bool.and_eq_true_iff.mp hc).1
  refine (h _ true (.keyword (by decide) hif)).bind fun test test' htest => ?_
  refine (branchCheck_alike h (by decide)).bind fun yes yes' hyes => ?_
  refine (branchCheck_alike h (by decide)).bind fun no no' hno => .pure ?_
  refine superRefine_matched fun hP => ?_
  rw [htest.2 hP, hyes hP, hno hP]

/-- **Objects are compiled alike if the schemas inside are.** -/
theorem compileObject_alike (hC : C.Steady) (henv : ReadsAs env env') :
    C.Alike (Matched P) (compileObject env inner schema) (compileObject env' inner' schema) := by
  have hconstructor : objectConstructor env' schema = objectConstructor env schema := by
    simp only [objectConstructor, henv.mode]
  unfold compileObject
  rw [hconstructor]
  refine (compileShape_alike hC henv h fun _ _ _ hd hv => .property hd hv).bind
    fun shape shape' hshape => ?_
  have hbase : Matched P (zod (objectConstructor env schema) [shape])
      (zod (objectConstructor env schema) [shape']) := by
    refine .zod fun hP => ?_
    rw [hshape hP]
  refine (additional_alike h hbase).bind fun e e' he => ?_
  refine (Alike.liftPaired (undeclaredRequired_paired (propertyCount_matched he))).bind
    fun e e' he => ?_
  refine (patternProperties_alike h he).bind fun e e' he => ?_
  refine (Alike.liftPaired (propertyNames_paired he)).bind fun e e' he => ?_
  refine (dependencies_alike h).bind fun ms ms' hms => Alike.liftBind fun required _ => ?_
  refine (ifThenElse_alike h).bind fun conditions conditions' hconditions => .pure ?_
  exact ((he.append hms).append (.refl required)).append hconditions

end Objects

/-! ## Compositions -/

theorem omitting_paired {names : List Scalar} (he : P → e = e') :
    Outcome.Paired (fun r r' => P → r = r') (omitting names e) (omitting names e') := by
  unfold omitting
  split
  · exact .ok he
  · refine Outcome.paired_bind fun mask _ => .ok fun hP => ?_
    rw [he hP]

/-- Two results so far that are matched and can both be extended or neither. -/
structure MergeMatched (P : Prop) (m m' : Merge) : Prop where
  result : Matched P m.result m'.result
  extensible : m.extensible = m'.extensible

section Compositions

variable {env env' : Environment} {inner inner' : Inner} {branch : Value}
  (h : InnerAlike C P (BranchPart branch) inner inner')
include h

/-- Whether a branch extends a composition does not depend on the arguments in what it compiles to. -/
theorem extension_alike (hC : C.Steady) (henv : ReadsAs env env') {omitted : List Scalar}
    {fields : Fields} (hreduced : reduceBranch omitted branch = .ok (some (.object fields))) :
    C.Alike (Option.Rel fun n n' => P → n = n') (extension env inner omitted fields)
      (extension env' inner' omitted fields) := by
  have hshape : ∀ {e e' : Expression}, (P → e = e') →
      C.Alike (Option.Rel fun n n' => P → n = n')
        (do return some (Node.member (← omitting omitted e).toNode "shape"))
        (do return some (Node.member (← omitting omitted e').toNode "shape")) := by
    intro e e' he
    refine (Alike.liftPaired (omitting_paired he)).bind fun r r' hr => .pure (.some fun hP => ?_)
    rw [hr hP]
  refine Alike.ite (fun _ => ?_) fun _ => Alike.ite (fun _ => ?_) fun _ => ?_
  · refine (h _ true (.whole hreduced)).bind fun e e' he => ?_
    rw [Expression.isBareName_congr (he.1 rfl)]
    exact Alike.ite (fun _ => hshape he.2) fun _ => .pure .none
  · refine (h _ true (.whole hreduced)).bind fun e e' he => ?_
    rw [Expression.isNullable_congr (he.1 rfl), Expression.hasModifier_congr (he.1 rfl),
      Expression.exposesShape_congr (he.1 rfl)]
    exact Alike.ite (fun _ => .pure .none) fun _ => hshape he.2
  · refine (compileShape_alike hC henv h fun _ _ _ hd hv => .property hreduced hd hv).bind
      fun n n' hn => .pure (.some hn)

/-- What is left of a branch is compiled as a whole where it cannot extend the result. -/
theorem intersection_alike {omitted : List Scalar} {left : Value}
    (hreduced : reduceBranch omitted branch = .ok (some left)) :
    C.Alike (fun e e' => P → e = e') (intersection inner omitted left)
      (intersection inner' omitted left) := by
  refine (h _ true (.whole hreduced)).bind fun e e' he => Alike.liftBind fun isRef _ => ?_
  rw [Expression.isBareName_congr (he.1 rfl)]
  exact Alike.ite (fun _ => Alike.liftPaired (omitting_paired he.2)) fun _ => .pure he.2

/-- One branch is merged alike on both sides, as the two results are extensible or not alike. -/
theorem mergeBranch_alike (hC : C.Steady) (henv : ReadsAs env env') {m m' : Merge}
    (hm : MergeMatched P m m') {omitted : List Scalar} :
    C.Alike (MergeMatched P) (mergeBranch env inner m branch omitted)
      (mergeBranch env' inner' m' branch omitted) := by
  refine Alike.liftBind fun reduced hreduced => ?_
  cases reduced with
  | none => exact .pure hm
  | some left =>
    -- what does not extend the result is intersected with it, for one reason or another
    have hintersected : C.Alike (MergeMatched P)
        (do
          let e ← intersection inner omitted left
          return ⟨m.result.andThen "and" [e.toNode], false⟩)
        (do
          let e ← intersection inner' omitted left
          return ⟨m'.result.andThen "and" [e.toNode], false⟩) := by
      refine (intersection_alike h hreduced).bind fun e e' he => .pure ⟨?_, rfl⟩
      refine hm.result.andThen _ fun hP => ?_
      rw [he hP]
    cases left with
    | scalar s => exact hintersected
    | list vs => exact hintersected
    | object fields =>
      dsimp only
      rw [hm.extensible]
      refine Alike.iteBind (fun _ => extension_alike h hC henv hreduced) (fun _ => .pure .none)
        fun argument argument' hargument => ?_
      cases hargument with
      | none => exact hintersected
      | some hshape =>
        refine .pure ⟨hm.result.andThen _ fun hP => ?_, rfl⟩
        rw [hshape hP]

end Compositions

section Compositions

variable {env env' : Environment} {inner inner' : Inner} (hC : C.Steady) (henv : ReadsAs env env')
include hC henv

/-- All branches, by induction on them. -/
theorem mergeBranches_alike : ∀ {branches : List (Value × List Scalar)} {m m' : Merge},
    MergeMatched P m m' → (∀ b ∈ branches, InnerAlike C P (BranchPart b.1) inner inner') →
    C.Alike (MergeMatched P) (mergeBranches env inner m branches)
      (mergeBranches env' inner' m' branches)
  | [], _, _, hm, _ => .pure hm
  | (branch, omitted) :: rest, _, _, hm, h => by
    obtain ⟨hbranch, hrest⟩ := List.forall_mem_cons.mp h
    exact (mergeBranch_alike hbranch hC henv hm).bind fun _ _ hm => mergeBranches_alike hm hrest

/-- **Compositions are compiled alike if the parts of their branches are.** Both sides find the same
conflicts, since these depend on the branches alone. -/
theorem compileAllOf_alike {branches : List Value} {nullable : Bool}
    (h : ∀ b ∈ branches, InnerAlike C P (BranchPart b) inner inner') :
    C.Alike (Matched P) (compileAllOf env inner branches nullable)
      (compileAllOf env' inner' branches nullable) := by
  unfold compileAllOf
  split
  · refine (h _ List.mem_cons_self _ true (.self _)).bind fun e e' he => .pure ?_
    exact (Matched.of_inner he).nullableIf _
  · rw [← henv.schemas]
    refine Alike.liftBind fun scan _ => ?_
    refine (Alike.forM fun c _ => hC.addConflict c).bind fun _ _ _ => ?_
    split
    · exact Alike.fail _
    · rename_i first rest
      obtain ⟨hfirst, hrest⟩ := List.forall_mem_cons.mp h
      refine (hfirst _ true (.self _)).bind fun head head' hhead => ?_
      rw [Expression.exposesShape_congr (hhead.1 rfl)]
      refine Alike.iteBind (Q := Eq) (fun _ => Alike.lift.mono fun _ _ hv => hv.1)
        (fun _ => .pure rfl) fun extensible extensible' hext => ?_
      have hstart : MergeMatched P ⟨head, extensible⟩ ⟨head', extensible'⟩ := ⟨.of_inner hhead, hext⟩
      refine (mergeBranches_alike hC henv hstart fun b hb => hrest _ (List.of_mem_zip hb).1).bind
        fun m m' hm => .pure ?_
      exact (Matched.ite hm.result (hm.result.andThen _ fun _ => rfl)).nullableIf _

/-- Both sides choose the same branches: listed ones, or references to the targets of a mapping. -/
theorem selectBranches_alike {branches : List Value} {discriminator mapping : Value} :
    C.Alike (fun r r' => r = r' ∧ ∀ b ∈ r.1, Selectable branches mapping b)
      (selectBranches env branches discriminator mapping)
      (selectBranches env' branches discriminator mapping) := by
  unfold selectBranches
  rw [← henv.schemas]
  refine Alike.ite (fun _ => ?_) fun _ => .pure ⟨rfl, fun b hb => Or.inl hb⟩
  refine Alike.iteBind (Q := fun bs bs' => bs = bs' ∧ ∀ b ∈ bs, Selectable branches mapping b)
    (fun _ => ?_) (fun _ => .pure ⟨rfl, fun b hb => Or.inl hb⟩) fun ordered ordered' hordered => ?_
  · refine Alike.lift.mono fun bs bs' hbs => ⟨hbs.1, fun b hb => ?_⟩
    exact mem_orderByMapping hbs.2 hb
  · obtain ⟨rfl, hordered⟩ := hordered
    refine Alike.liftBind fun required _ => Alike.ite (fun _ => .pure ⟨rfl, hordered⟩) fun _ => ?_
    refine hC.session.bind fun s s' hs => ?_
    rw [hs]
    exact (hC.addWarning _).bind fun _ _ _ => .pure ⟨rfl, hordered⟩

end Compositions

/-! ## Unions -/

theorem unionOf_matched {discriminator : Option Value} {es es' : List Expression}
    (hes : P → es = es') : Matched P (unionOf discriminator es) (unionOf discriminator es') := by
  unfold unionOf
  cases discriminator with
  | none =>
    refine .zod fun hP => ?_
    rw [hes hP]
  | some property =>
    refine .zod fun hP => ?_
    rw [hes hP]

section Unions

variable {env env' : Environment} {inner inner' : Inner} {schema : Fields}
  (hC : C.Steady) (henv : ReadsAs env env')
include hC henv

/-- **Unions are compiled alike**, with the branches that a mapping adds. -/
theorem compileUnion_alike {D : Value → Prop} (h : InnerAlike C P D inner inner')
    {kind : UnionKind} {branches : List Value} {discriminator mapping : Value}
    {nullable admitting : Bool} (hb : ∀ b ∈ branches, D b)
    (hm : ∀ targets name t, mapping = .object targets → (name, t) ∈ targets →
      D (.object [(.text "$ref", t)])) :
    C.Alike (Matched P)
      (compileUnion env inner kind branches discriminator mapping nullable admitting)
      (compileUnion env' inner' kind branches discriminator mapping nullable admitting) := by
  unfold compileUnion
  split
  · refine hC.session.bind fun s s' hs => ?_
    rw [hs]
    exact (hC.addWarning _).bind fun _ _ _ => .pure (.refl _)
  · refine (h _ true (hb _ List.mem_cons_self)).bind fun e e' he => .pure ?_
    exact (Matched.of_inner he).nullableIf _
  · refine (selectBranches_alike hC henv).bind fun r r' hr => ?_
    obtain ⟨rfl, hr⟩ := hr
    obtain ⟨selected, selector⟩ := r
    refine (Alike.mapM fun b hsel => h b true ?_).bind fun es es' hes => .pure ?_
    · rcases hr b hsel with hlisted | ⟨targets, name, t, hmapping, ht, rfl⟩
      · exact hb b hlisted
      · exact hm targets name t hmapping ht
    · have hcompiled : P → (if admitting then es.map ensureAdmits else es) =
          if admitting then es'.map ensureAdmits else es' := by
        intro hP
        rw [eq_of_forall₂ hes fun _ _ hr => hr.2 hP]
      refine Matched.nullableIf ?_ _
      cases selector with
      | none => exact unionOf_matched hcompiled
      | property name => exact unionOf_matched hcompiled
      | unusable name => exact (unionOf_matched hcompiled).andThen _ fun _ => rfl

omit hC

/-- The evaluated names are read off the schemas of the document, which both environments share. -/
theorem evaluatedNames_eq (schema : Fields) :
    evaluatedNames env' schema = evaluatedNames env schema := by
  have hbranches : branchNames env' schema = branchNames env schema := by
    funext keyword
    simp only [branchNames, Environment.resolve?, henv.schemas]
  unfold evaluatedNames
  rw [hbranches]

/-- The check of unevaluated properties wraps both sides or none. -/
theorem checkUnevaluated_alike (h : InnerAlike C P (PartOf schema) inner inner')
    (he : Matched P e e') :
    C.Alike (Matched P) (checkUnevaluated env inner schema e)
      (checkUnevaluated env' inner' schema e') := by
  -- the check stands before a final `nullable`, which is taken off and put back
  have hbare : Matched P
      (admitUnevaluated (if e.isNullable then ⟨e.base, e.modifiers.dropLast⟩ else e))
      (admitUnevaluated (if e.isNullable then ⟨e'.base, e'.modifiers.dropLast⟩ else e')) :=
    (Matched.ite he.dropLast he).admitUnevaluated
  unfold checkUnevaluated
  dsimp only
  rw [evaluatedNames_eq henv, ← Expression.isNullable_congr he.outline]
  split
  · refine Alike.liftBind fun names _ => Alike.liftBind fun evaluated _ => ?_
    exact .pure ((hbare.andThen _ fun _ => rfl).nullableIf _)
  · rename_i rule hrule
    have hpart : PartOf schema (.object rule) := .of_value (by decide) hrule
    refine Alike.liftBind fun names _ => Alike.liftBind fun evaluated _ => ?_
    refine Alike.bind (Q := Matched P) ?_ fun checked checked' hchecked =>
      .pure (hchecked.nullableIf _)
    refine (h _ true hpart).bind fun r r' hr => .pure (hbare.andThen _ fun hP => ?_)
    rw [hr.2 hP]
  · exact .pure he

end Unions

/-! ## Forms -/

/-- Two ways to compile references agree. -/
def ReferAlike (C : Comparison) (P : Prop) (refer refer' : Refer) : Prop :=
  ∀ ref name top, C.Alike (Matched P) (refer ref name top) (refer' ref name top)

section Forms

variable {env env' : Environment} {inner inner' : Inner} {refer refer' : Refer} {schema : Fields}
  (hC : C.Steady) (henv : ReadsAs env env') (h : InnerAlike C P (PartOf schema) inner inner')
include h

theorem compileSeveralTypes_alike (hseveral : 1 < (nonNullTypes schema).length) :
    C.Alike (Matched P) (compileSeveralTypes inner schema (nonNullTypes schema))
      (compileSeveralTypes inner' schema (nonNullTypes schema)) := by
  refine (Alike.mapM fun type ht => h _ true (.oneType hseveral ht)).bind
    fun es es' hes => .pure (.zod fun hP => ?_)
  rw [eq_of_forall₂ hes fun _ _ hr => hr.2 hP]

/-- A negation compiles the excluded schema, then what is left without it. -/
theorem compileNegation_alike {excluded : Value} (held : schema.get? "not" = some excluded) :
    C.Alike (Matched P) (compileNegation inner schema excluded)
      (compileNegation inner' schema excluded) := by
  refine (h _ true (.excluded held)).bind fun e e' he => ?_
  refine Alike.iteBind (Q := Matched P) (fun _ => ?_) (fun _ => .pure (.refl _))
    fun base base' hbase => .pure (hbase.andThen _ fun hP => ?_)
  · exact (h _ true (.remainder (Fields.has_of_get? held))).mono fun _ _ hr => .of_inner hr
  · rw [he.2 hP]

include hC henv

theorem compileObjectForm_alike {constrained : Bool} :
    C.Alike (Matched P) (compileObjectForm env inner schema constrained)
      (compileObjectForm env' inner' schema constrained) := by
  unfold compileObjectForm
  rw [← henv.describes, ← henv.emptyObject]
  refine Alike.ite (fun _ => ?_) fun _ => ?_
  · refine (compileObject_alike h hC henv).bind fun e e' he => ?_
    exact (checkUnevaluated_alike henv h he).bind fun e e' he => .pure (he.describe _ _)
  · split
    · rename_i values hvalues
      have hpart : PartOf schema (.object values) := .of_value (by decide) hvalues
      refine (h _ false hpart).bind fun e e' he => .pure (.describe (.zod fun hP => ?_) _ _)
      rw [he.2 hP]
    · exact .pure (.refl _)
    · exact .pure (.refl _)

/-- **A schema of any form that is not a composition.** -/
theorem compileForm_alike (hr : ReferAlike C P refer refer') {top : Bool} {form : Form}
    (hform : FormOf schema form) :
    C.Alike (Matched P) (compileForm env refer inner schema top form)
      (compileForm env' refer' inner' schema top form) := by
  -- a form without schemas inside gives one and the same expression
  have hsame : ∀ {e e' : Expression}, e = e' → C.Alike (Matched P) (pure e) (pure e') := by
    rintro e _ rfl
    exact .pure (.refl e)
  cases hform with
  | severalTypes several => exact compileSeveralTypes_alike h several
  | reference held => exact hr _ _ _
  | constant held => exact .pure (.refl _)
  | enum held walked => exact .pure (.refl _)
  | negation held => exact compileNegation_alike h held
  | allOf held walked => exact hsame (by rw [henv.describes])
  | union held walked told => exact hsame (by rw [henv.describes])
  | ofType =>
    rcases formOfType_cases schema with hf | ⟨isInteger, hf⟩ | hf | hf | ⟨constrained, hf⟩ | hf
    · rw [hf]
      refine (compileString_alike hC henv).mono fun e e' he => ?_
      rw [he]
      exact .refl _
    · rw [hf]
      exact hsame (by simp only [compileNumber, henv.describes])
    · rw [hf]
      exact hsame (by rw [henv.describes])
    · rw [hf]
      exact compileArray_alike h henv
    · rw [hf]
      exact compileObjectForm_alike hC henv h
    · rw [hf]
      exact hsame (by rw [henv.describes])

/-- **A schema of any form.** For one that is not a composition, the default for null has to be the
same if null is compared at all. -/
theorem compileClassified_alike (hr : ReferAlike C P refer refer') {top branch : Bool} {form : Form}
    (hform : FormOf schema form) {Q : Expression → Expression → Prop}
    (hcomposed : ∀ e e', Matched P e e' → form.isComposition = true → Q e e')
    (hplain : ∀ e e', Matched P e e' → form.isComposition = false →
      Q (e.nullableIf (isNullable schema
          (defaultApplies schema top branch && env.context.defaultNullable.isSet)))
        (e'.nullableIf (isNullable schema
          (defaultApplies schema top branch && env'.context.defaultNullable.isSet)))) :
    C.Alike Q (compileClassified env refer inner schema top branch form)
      (compileClassified env' refer' inner' schema top branch form) := by
  have hbranches : ∀ {k : String} {value : Value} {branches : List Value},
      k ∈ ["allOf", "oneOf", "anyOf"] → schema.get? k = some value → value.walk = .ok branches →
      ∀ b ∈ branches, InnerAlike C P (BranchPart b) inner inner' :=
    fun hk hget hwalk b hb v flag hv => h v flag (.branch hk hget hwalk hb hv)
  have hother : form.isComposition = false →
      C.Alike Q
        (do
          let e ← compileForm env refer inner schema top form
          return e.nullableIf (isNullable schema
            (defaultApplies schema top branch && env.context.defaultNullable.isSet)))
        (do
          let e ← compileForm env' refer' inner' schema top form
          return e.nullableIf (isNullable schema
            (defaultApplies schema top branch && env'.context.defaultNullable.isSet))) := by
    intro hc
    exact (compileForm_alike hC henv h hr hform).bind fun e e' he => .pure (hplain e e' he hc)
  cases hform with
  | allOf held walked =>
    refine (compileAllOf_alike hC henv (hbranches (by decide) held walked)).bind fun e e' he => ?_
    exact (checkUnevaluated_alike henv h he).mono fun e e' he => hcomposed e e' he rfl
  | @union kind value branches discriminator held walked told =>
    have hkind : kind.keyword ∈ ["allOf", "oneOf", "anyOf"] := by cases kind <;> decide
    refine (compileUnion_alike hC henv h (fun b hb => ?_) fun targets name t hm ht => ?_).bind
      fun e e' he => ?_
    · exact .branch hkind held walked hb (.self b)
    · rcases Value.fieldsIfSet_eq_ok told with rfl | htold
      · cases hm
      · exact .target htold hm ht
    · exact (checkUnevaluated_alike henv h he).mono fun e e' he => hcomposed e e' he rfl
  | ofType =>
    rcases formOfType_cases schema with hf | ⟨_, hf⟩ | hf | hf | ⟨_, hf⟩ | hf
    all_goals
      rw [hf] at hother ⊢
      exact hother rfl
  | severalTypes several => exact hother rfl
  | reference held => exact hother rfl
  | constant held => exact hother rfl
  | enum held walked => exact hother rfl
  | negation held => exact hother rfl

end Forms

/-! ## Schema objects -/

/-- A schema that never follows the default for null: by where it stands, or because it is an enum,
a constant or a composition. -/
def IgnoresDefault (schema : Fields) (top branch : Bool) : Prop :=
  top = true ∨ branch = true ∨ schema.has "enum" = true ∨ schema.has "const" = true ∨
    ∃ form, classify schema = .ok form ∧ form.isComposition = true

theorem ignoresDefault_branch (schema : Fields) (top : Bool) : IgnoresDefault schema top true :=
  Or.inr (Or.inl rfl)

/-- Then its visible part does not follow it either. -/
theorem IgnoresDefault.visible {env : Environment} {schema fields : Fields} {top branch : Bool}
    (h : IgnoresDefault schema top branch) (hfields : visibleFields env schema = .ok fields) :
    defaultApplies fields top branch = false ∨
      ∃ form, classify fields = .ok form ∧ form.isComposition = true := by
  rcases h with rfl | rfl | henum | hconst | ⟨form, hform, hcomposed⟩
  · exact Or.inl (by simp [defaultApplies])
  · exact Or.inl (by simp [defaultApplies])
  · rw [← has_visibleFields hfields (by decide)] at henum
    exact Or.inl (by simp [defaultApplies, henum])
  · rw [← has_visibleFields hfields (by decide)] at hconst
    exact Or.inl (by simp [defaultApplies, hconst])
  · exact Or.inr (isComposition_visibleFields hfields hform hcomposed)

/-- What has to agree in the results of a schema object: everything if `P` holds, and the outline
if the default for null does not matter. -/
structure FieldsMatched (P : Prop) (schema : Fields) (top branch : Bool) (e e' : Expression) :
    Prop where
  eq : P → e = e'
  outline : IgnoresDefault schema top branch → e.outline = e'.outline

/-- **A schema object, if what is inside is compiled alike.** -/
theorem compileFields_alike {env env' : Environment} {inner inner' : Inner} {refer refer' : Refer}
    {schema : Fields} (hC : C.Steady) (henv : ReadsAs env env') (hr : ReferAlike C P refer refer')
    (hnull : P → env.context.defaultNullable.isSet = env'.context.defaultNullable.isSet)
    (h : ∀ fields, visibleFields env schema = .ok fields →
      InnerAlike C P (PartOf fields) inner inner') {top branch : Bool} :
    C.Alike (FieldsMatched P schema top branch) (compileFields env refer inner schema top branch)
      (compileFields env' refer' inner' schema top branch) := by
  unfold compileFields
  rw [visibleFields_congr henv.visibility]
  refine Alike.liftBind fun fields hfields => Alike.liftBind fun form hform => ?_
  refine compileClassified_alike hC henv (h fields hfields) hr (formOf_of_classify hform)
    (fun e e' he _ => ⟨he.eq, fun _ => he.outline⟩) fun e e' he hplain => ⟨fun hP => ?_, ?_⟩
  · rw [he.eq hP, hnull hP]
  · intro hignores
    rcases hignores.visible hfields with happlies | ⟨form', hform', hcomposed⟩
    · rw [happlies]
      exact Expression.outline_nullableIf_congr he.outline _
    · rw [hform] at hform'
      cases hform'
      rw [hplain] at hcomposed
      cases hcomposed

/-! ## Schemas -/

/-- What has to agree in the results of a schema. -/
def SchemaMatched (P : Prop) (top branch : Bool) : Value → Expression → Expression → Prop
  | .object schema => FieldsMatched P schema top branch
  | _ => Eq

theorem SchemaMatched.inner {top branch : Bool} {v : Value}
    (h : SchemaMatched P top branch v e e') : InnerMatched P branch e e' := by
  cases v with
  | object schema =>
    refine ⟨fun hb => h.outline ?_, h.eq⟩
    subst hb
    exact ignoresDefault_branch schema top
  | scalar s =>
    cases h
    exact ⟨fun _ => rfl, fun _ => rfl⟩
  | list vs =>
    cases h
    exact ⟨fun _ => rfl, fun _ => rfl⟩

/-- How the schemas inside another are compiled. -/
def within (env : Environment) (refer : Refer) (levels : Nat) : Inner :=
  fun v branch => compileWithin env refer false branch levels v

/-- **By induction on the levels left: schemas of any depth, if for schema objects caches make no
difference.** Schemas may be limited to a set that has the parts of its members. -/
theorem compileWithin_alike {env env' : Environment} {refer refer' : Refer} {D : Value → Prop}
    (hC : C.Steady) (hdepth : env.context.maxDepth = env'.context.maxDepth)
    (hparts : ∀ schema fields v, D (.object schema) → visibleFields env schema = .ok fields →
      PartOf fields v → D v)
    (hcached : ∀ (levels : Nat) (schema : Fields) (top branch : Bool), D (.object schema) →
      (∀ fields, visibleFields env schema = .ok fields →
        InnerAlike C P (PartOf fields) (within env refer levels) (within env' refer' levels)) →
      C.Alike (FieldsMatched P schema top branch)
        (compileCached env refer (within env refer levels) schema top branch)
        (compileCached env' refer' (within env' refer' levels) schema top branch)) :
    ∀ (levels : Nat) (v : Value) (top branch : Bool), D v →
      C.Alike (SchemaMatched P top branch v) (compileWithin env refer top branch levels v)
        (compileWithin env' refer' top branch levels v) := by
  intro levels
  induction levels with
  | zero =>
    intro v top branch hv
    unfold compileWithin
    split
    · exact .pure rfl
    · refine hC.session.bind fun s s' hs => ?_
      rw [hs, hdepth]
      exact .fail _
    · rename_i hlevels
      cases hlevels
    · refine hC.session.bind fun s s' hs => ?_
      rw [hs]
      exact .fail _
  | succ levels ih =>
    intro v top branch hv
    unfold compileWithin
    split
    · exact .pure rfl
    · rename_i hlevels
      cases hlevels
    · rename_i levels' schema hlevels
      cases hlevels
      refine hC.nested (hcached levels schema top branch hv fun fields hfields w branch hw => ?_)
      exact (ih w false branch (hparts _ _ _ hv hfields hw)).mono fun e e' he => he.inner
    · refine hC.session.bind fun s s' hs => ?_
      rw [hs]
      exact .fail _

end SchemaForge.Compile
