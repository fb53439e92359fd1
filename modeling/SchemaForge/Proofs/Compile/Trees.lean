import SchemaForge.Proofs.Compile.TreeParts

/-!
# Conditions on compiled schemas

A condition on trees holds of everything that is compiled, if it holds of the references and if
methods of objects are called only where they may be. Objects call them on themselves; besides, the
compiler calls them on branches of compositions: to extend the first one, to leave properties out of
a nested one, and to let other properties through to a check. `FormSites` collects these places.
-/

namespace SchemaForge.Compile

open Schema TreeCondition

variable {T : TreeCondition} {X : String} {F : Value → Expression → Prop} {env : Environment}

/-! ## Compositions -/

theorem holds_omitting {names : List Scalar} {e e' : Expression} (he : T.Holds e)
    (hcalls : names ≠ [] → T.calls e) (h : omitting names e = .ok e') : T.Holds e' := by
  unfold omitting at h
  split at h
  · cases h
    exact he
  · rename_i hnames
    obtain ⟨mask, hmask, h⟩ := Outcome.bind_eq_ok.mp h
    obtain ⟨keys, -, hmask⟩ := Outcome.bind_eq_ok.mp hmask
    cases hmask
    cases h
    refine T.andThen he (List.forall_mem_singleton.mpr (T.codeText _)) fun _ => hcalls ?_
    simpa using hnames

/-- A branch that is a composition of its own. -/
def isNested : Value → Bool
  | .object branch => !Fields.has branch "$ref" && Fields.has branch "allOf"
  | _ => false

/-- A composition does not lose its properties before it is compiled. -/
theorem eq_of_reduceBranch_nested {omitted : List Scalar} {branch left : Value}
    (h : reduceBranch omitted branch = .ok (some left)) (hn : isNested left = true) :
    left = branch := by
  rcases reduceBranch_cases h with heq | ⟨fields, reduced, -, rfl, -, hallOf, hreduced⟩
  · exact heq
  · rw [Fields.has, ← get?_withoutProperties hreduced (by decide)] at hallOf
    simp [isNested, Fields.has, hallOf] at hn

/-- The result so far can be called on as an object while it is extended. -/
structure MergeHolds (T : TreeCondition) (m : Merge) : Prop where
  holds : T.Holds m.result
  calls : m.extensible = true → T.calls m.result

section Compositions

variable {inner inner' : Inner} {branch : Value}
  (h : InnerHolds T X F (BranchPart branch) inner inner')
include h

/-- What extends a result is a shape, or a branch; leaving properties out of a branch asks for an
object. -/
theorem extension_holds {omitted : List Scalar} {fields : Fields}
    (hreduced : reduceBranch omitted branch = .ok (some (.object fields)))
    (hnested : isNested (.object fields) = true → omitted ≠ [] →
      ∀ e, F (.object fields) e → T.calls e) :
    Same X (fun n => ∀ m ∈ n, T.node m) (extension env inner omitted fields)
      (extension env inner' omitted fields) := by
  have hshape : ∀ e : Expression, T.Holds e → (omitted ≠ [] → T.calls e) →
      Same X (fun n => ∀ m ∈ n, T.node m)
        (do return some (.member (← omitting omitted e).toNode "shape"))
        (do return some (.member (← omitting omitted e).toNode "shape")) := by
    intro e he hcalls
    refine Same.liftBind fun e' he' => .pure ?_
    simpa using T.member (holds_omitting he hcalls he')
  refine Same.ite (fun _ => ?_) fun href => Same.ite (fun hallOf => ?_) fun _ => ?_
  · refine (h.branch (.whole hreduced)).bind fun e he => ?_
    exact Same.ite (fun hname => hshape e he.1 fun _ => T.calls_name hname) fun _ => .pure (by simp)
  · refine (h.branch (.whole hreduced)).bind fun e he => ?_
    refine Same.ite (fun _ => .pure (by simp)) fun _ => hshape e he.1 fun homitted => ?_
    exact hnested (by simp [isNested, hallOf, href]) homitted e he.2
  · exact (compileShape_holds h fun _ _ _ hd hv => .property hreduced hd hv).bind
      fun n hn => .pure (by simpa using hn)

theorem intersection_holds {omitted : List Scalar} {left : Value}
    (hreduced : reduceBranch omitted branch = .ok (some left)) :
    Same X T.Holds (intersection inner omitted left) (intersection inner' omitted left) := by
  refine (h.holds (.whole hreduced) true).bind fun e he => Same.liftBind fun isRef _ => ?_
  refine Same.ite (fun hc => Same.lift fun e' he' => ?_) fun _ => .pure he
  have hname : e.isBareName = true := (Bool.and_eq_true_iff.mp hc).2
  exact holds_omitting he (fun _ => T.calls_name hname) he'

/-- A branch extends the result or is met with it. -/
theorem mergeBranch_holds {m : Merge} (hm : MergeHolds T m) {omitted : List Scalar}
    (hnested : isNested branch = true → omitted ≠ [] → ∀ e, F branch e → T.calls e) :
    Same X (MergeHolds T) (mergeBranch env inner m branch omitted)
      (mergeBranch env inner' m branch omitted) := by
  refine Same.liftBind fun reduced hreduced => ?_
  cases reduced with
  | none => exact .pure hm
  | some left =>
    -- what does not extend the result is intersected with it, for one reason or another
    have hintersected : Same X (MergeHolds T)
        (do
          let e ← intersection inner omitted left
          return ⟨m.result.andThen "and" [e.toNode], false⟩)
        (do
          let e ← intersection inner' omitted left
          return ⟨m.result.andThen "and" [e.toNode], false⟩) := by
      refine (intersection_holds h hreduced).bind fun e he => .pure ⟨?_, by simp⟩
      exact Holds.andThen hm.holds (by decide) (List.forall_mem_singleton.mpr he)
    cases left with
    | scalar s => exact hintersected
    | list vs => exact hintersected
    | object fields =>
      refine Same.iteBind (Q := fun n => ∀ a ∈ n, T.node a ∧ m.extensible = true) (fun hext => ?_)
        (fun _ => .pure (by simp)) fun argument hargument => ?_
      · refine (extension_holds h hreduced fun hn homitted e he => ?_).mono
          fun n hn a ha => ⟨hn a ha, hext⟩
        obtain heq : .object fields = branch := eq_of_reduceBranch_nested hreduced hn
        rw [heq] at hn he
        exact hnested hn homitted e he
      · cases argument with
        | none => exact hintersected
        | some shape =>
          obtain ⟨hshape, hext⟩ := hargument shape rfl
          have hobject : T.HoldsObject m.result := ⟨hm.holds, hm.calls hext⟩
          have hresult : T.HoldsObject (m.result.andThen "extend" [shape]) :=
            hobject.andThen (by decide) (by decide) (List.forall_mem_singleton.mpr hshape)
          exact .pure ⟨hresult.holds, fun _ => hresult.calls⟩

end Compositions

/-- Where an `allOf` calls methods of objects on its branches, what is known of them allows it. -/
structure AllOfSites (T : TreeCondition) (F : Value → Expression → Prop) (env : Environment)
    (branches : List Value) : Prop where
  /-- If all branches describe objects, the first is extended by the others. -/
  head : ∀ {first second : Value} {rest : List Value}, branches = first :: second :: rest →
    allObjectLike env.schemas branches = .ok true →
    ∀ e, F first e → e.exposesShape = true → T.calls e
  /-- A composition among the branches loses properties after it is compiled. -/
  nested : ∀ {scan : Scan}, scanBranches env.schemas branches = .ok scan →
    ∀ b ∈ branches.zip scan.overridden, isNested b.1 = true → b.2 ≠ [] → ∀ e, F b.1 e → T.calls e

section Compositions

variable {inner inner' : Inner}

/-- All branches, by induction on them. -/
theorem mergeBranches_holds : ∀ {branches : List (Value × List Scalar)} {m : Merge},
    MergeHolds T m → (∀ b ∈ branches, InnerHolds T X F (BranchPart b.1) inner inner') →
    (∀ b ∈ branches, isNested b.1 = true → b.2 ≠ [] → ∀ e, F b.1 e → T.calls e) →
    Same X (MergeHolds T) (mergeBranches env inner m branches) (mergeBranches env inner' m branches)
  | [], _, hm, _, _ => .pure hm
  | (branch, omitted) :: rest, _, hm, h, hnested => by
    obtain ⟨hbranch, hrest⟩ := List.forall_mem_cons.mp h
    obtain ⟨hn, hnrest⟩ := List.forall_mem_cons.mp hnested
    exact (mergeBranch_holds hbranch hm hn).bind fun _ hm => mergeBranches_holds hm hrest hnrest

theorem mem_zip_of_mem_tail {α β : Type} {x : α} {l : List α} {l' : List β} {p : α × β}
    (h : p ∈ l.zip l'.tail) : p ∈ (x :: l).zip l' := by
  cases l' with
  | nil => simp at h
  | cons y l' => exact List.mem_cons_of_mem _ h

/-- **A composition has the condition if its sites allow the calls that are made on them.** -/
theorem compileAllOf_holds {branches : List Value} {nullable : Bool}
    (h : ∀ b ∈ branches, InnerHolds T X F (BranchPart b) inner inner')
    (hsites : AllOfSites T F env branches) :
    Same X T.Holds (compileAllOf env inner branches nullable)
      (compileAllOf env inner' branches nullable) := by
  unfold compileAllOf
  split
  · refine ((h _ List.mem_cons_self).holds (.self _) true).bind fun e he => .pure ?_
    exact Holds.nullableIf he _
  · rename_i hsingle
    refine Same.liftBind fun scan hscan => ?_
    refine (Same.forM fun c _ => Same.addConflict c).bind fun _ _ => ?_
    split
    · exact Same.fail _
    · rename_i first rest
      obtain ⟨hfirst, hrest⟩ := List.forall_mem_cons.mp h
      refine (hfirst.branch (.self _)).bind fun head hhead => ?_
      have hcalls : head.exposesShape = true → allObjectLike env.schemas (first :: rest) = .ok true →
          T.calls head := by
        intro hshape hlike
        cases rest with
        | nil => exact absurd rfl (hsingle first)
        | cons second rest => exact hsites.head rfl hlike head hhead.2 hshape
      refine Same.iteBind (Q := fun extensible => extensible = true → T.calls head)
        (fun hshape => Same.lift fun extensible hlike hext => ?_) (fun _ => .pure (by simp))
        fun extensible hext => ?_
      · rw [hext] at hlike
        exact hcalls hshape hlike
      · have hstart : MergeHolds T ⟨head, extensible⟩ := ⟨hhead.1, hext⟩
        refine (mergeBranches_holds hstart (fun b hb => hrest _ (List.of_mem_zip hb).1)
          fun b hb => ?_).bind fun m hm => .pure ?_
        · exact hsites.nested hscan b (mem_zip_of_mem_tail hb)
        · refine Holds.nullableIf (Holds.ite hm.holds ?_) _
          exact Holds.andThen hm.holds (by decide) (by simpa using T.literal _)

end Compositions

/-! ## Unevaluated properties -/

/-- An expression without a final `nullable`. -/
def bareOf (e : Expression) : Expression :=
  if e.isNullable then ⟨e.base, e.modifiers.dropLast⟩ else e

/-- Whether the unevaluated properties of a schema are checked. -/
def isChecked (schema : Fields) : Bool :=
  match schema.value "unevaluatedProperties" with
  | .bool false => true
  | .object _ => true
  | _ => false

/-- Other properties can be let through to a check, or pass already. -/
def Admits (T : TreeCondition) (e : Expression) : Prop :=
  T.calls (bareOf e) ∨ admitUnevaluated (bareOf e) = bareOf e

/-- Letting other properties pass is asked of what allows it. -/
theorem holds_admitUnevaluated {e : Expression} (he : T.Holds e) (hadmits : Admits T e) :
    T.Holds (admitUnevaluated (bareOf e)) := by
  have hbare : T.Holds (bareOf e) := by
    unfold bareOf
    split
    · exact T.dropLast he
    · exact he
  rcases hadmits with hcalls | heq
  · unfold admitUnevaluated
    dsimp only
    split
    · exact hbare.admitAll hcalls
    · exact hbare
  · rw [heq]
    exact hbare

theorem bareOf_nullableIf {e : Expression} (hnull : e.isNullable = false) (nullable : Bool) :
    bareOf (e.nullableIf nullable) = e := by
  cases nullable with
  | true => simp [bareOf, Expression.nullableIf, Expression.isNullable, Expression.andThen,
      Modifier.name]
  | false => simp [bareOf, Expression.nullableIf, hnull]

theorem admits_nullableIf {e : Expression} (hnull : e.isNullable = false)
    (h : T.calls e ∨ admitUnevaluated e = e) (nullable : Bool) : Admits T (e.nullableIf nullable) := by
  unfold Admits
  rw [bareOf_nullableIf hnull]
  exact h

/-- The check of unevaluated properties, where it is made, is made on what allows it. -/
theorem checkUnevaluated_holds {inner inner' : Inner} {schema : Fields}
    (h : InnerHolds T X F (PartOf schema) inner inner') {e : Expression} (he : T.Holds e)
    (hadmits : isChecked schema = true → Admits T e) :
    Same X T.Holds (checkUnevaluated env inner schema e) (checkUnevaluated env inner' schema e) := by
  have hbare : isChecked schema = true → T.Holds (admitUnevaluated (bareOf e)) :=
    fun hc => holds_admitUnevaluated he (hadmits hc)
  unfold checkUnevaluated
  dsimp only
  split
  · rename_i hrule
    have hchecked := hbare (by simp [isChecked, hrule])
    refine Same.liftBind fun names _ => Same.liftBind fun evaluated _ => .pure ?_
    exact Holds.nullableIf (Holds.refine hchecked (T.codeText _) (T.messageOptions _)) _
  · rename_i rule hrule
    have hchecked := hbare (by simp [isChecked, hrule])
    have hpart : PartOf schema (.object rule) := .of_value (by decide) hrule
    refine Same.liftBind fun names _ => Same.liftBind fun evaluated _ => ?_
    refine Same.bind (Q := T.Holds) ?_ fun checked hc => .pure (Holds.nullableIf hc _)
    refine (h.holds hpart true).bind fun r hr => .pure ?_
    exact Holds.refine hchecked (T.code (by simpa using hr)) (T.messageOptions _)
  · exact .pure he

/-! ## Unions -/

theorem selectBranches_holds {branches : List Value} {discriminator mapping : Value} :
    Same X (fun r => ∀ b ∈ r.1, Selectable branches mapping b)
      (selectBranches env branches discriminator mapping)
      (selectBranches env branches discriminator mapping) := by
  refine Same.ite (fun _ => ?_) fun _ => .pure fun b hb => Or.inl hb
  refine Same.iteBind (Q := fun bs => ∀ b ∈ bs, Selectable branches mapping b) (fun _ => ?_)
    (fun _ => .pure fun b hb => Or.inl hb) fun ordered hordered => ?_
  · exact Same.lift fun ordered hordered b hb => mem_orderByMapping hordered hb
  · refine Same.liftBind fun required _ => Same.ite (fun _ => .pure hordered) fun _ => ?_
    refine Same.session.bind fun s _ => ?_
    exact (Same.addWarning _).bind fun _ _ => .pure hordered

theorem holds_unionOf {discriminator : Option Value} {es : List Expression}
    (hes : ∀ e ∈ es, T.Holds e) : T.Holds (unionOf discriminator es) := by
  have harray : T.node (.array (es.map Expression.toNode)) :=
    T.array (List.forall_mem_map.mpr hes)
  cases discriminator with
  | none => exact T.zod (List.forall_mem_singleton.mpr harray)
  | some property => exact T.zod (by simp [T.literal, harray])

/-- The branches of a union already let other properties pass. -/
theorem admits_of_union {e : Expression} (hcallee : e.callee.any unionCallees.contains = true)
    (hnull : e.isNullable = false) (nullable : Bool) : Admits T (e.nullableIf nullable) := by
  refine admits_nullableIf hnull (Or.inr ?_) nullable
  simp [admitUnevaluated, hcallee]

/-- **A union has the condition if its branches do.** -/
theorem compileUnion_holds {D : Value → Prop} {inner inner' : Inner}
    (h : InnerHolds T X F D inner inner') {kind : UnionKind} {branches : List Value}
    {discriminator mapping : Value} {nullable admitting : Bool}
    (hD : ∀ b, Selectable branches mapping b → D b)
    (hadmitting : admitting = true → 2 ≤ branches.length → ∀ b, Selectable branches mapping b →
      ∀ e, F b e → e.hasModifier "catchall" = false → T.calls e) {checked : Prop}
    (hchecked : checked → ∀ b, branches = [b] → ∀ e, F b e → Admits T (e.nullableIf nullable)) :
    Same X (fun e => T.Holds e ∧ (checked → Admits T e))
      (compileUnion env inner kind branches discriminator mapping nullable admitting)
      (compileUnion env inner' kind branches discriminator mapping nullable admitting) := by
  unfold compileUnion
  split
  · refine Same.session.bind fun s _ => ?_
    refine (Same.addWarning _).bind fun _ _ => .pure ⟨Holds.nullableIf (T.zod_nil _) _, fun _ => ?_⟩
    exact admits_nullableIf rfl (Or.inr rfl) _
  · refine (h.branch (hD _ (Or.inl List.mem_cons_self))).bind fun e he => .pure ?_
    exact ⟨Holds.nullableIf he.1 _, fun hc => hchecked hc _ rfl e he.2⟩
  · rename_i hnil hsingle
    have hlength : 2 ≤ branches.length := by
      match branches with
      | [] => exact absurd rfl hnil
      | [b] => exact absurd rfl (hsingle b)
      | _ :: _ :: _ => simp
    refine selectBranches_holds.bind fun r hr => ?_
    obtain ⟨selected, selector⟩ := r
    refine (Same.mapM (R := fun e => T.Holds e ∧ (admitting = true →
      e.hasModifier "catchall" = false → T.calls e)) fun b hb => ?_).bind fun es hes => .pure ?_
    · refine (h.branch (hD b (hr b hb))).mono fun e he => ⟨he.1, fun ha => ?_⟩
      exact hadmitting ha hlength b (hr b hb) e he.2
    · have hadmitted : ∀ e ∈ (if admitting then es.map ensureAdmits else es), T.Holds e := by
        split
        · rename_i ha
          exact List.forall_mem_map.mpr fun e he => Holds.ensureAdmits (hes e he).1 ((hes e he).2 ha)
        · exact fun e he => (hes e he).1
      cases selector with
      | none =>
        exact ⟨Holds.nullableIf (holds_unionOf hadmitted) _, fun _ => admits_of_union rfl rfl _⟩
      | property name =>
        exact ⟨Holds.nullableIf (holds_unionOf hadmitted) _, fun _ => admits_of_union rfl rfl _⟩
      | unusable name =>
        refine ⟨Holds.nullableIf ?_ _, fun _ => admits_of_union rfl rfl _⟩
        exact Holds.andThen (holds_unionOf hadmitted) (by decide) (by simpa using T.literal _)

/-! ## Forms -/

/-- Where a schema of a form calls methods of objects, what is known of its branches allows it. -/
structure FormSites (T : TreeCondition) (X : String) (F : Value → Expression → Prop)
    (env : Environment) (schema : Fields) (form : Form) : Prop where
  allOf : ∀ {branches}, form = .allOf branches → AllOfSites T F env branches
  /-- The branches of a union let other properties pass to a check. -/
  admitting : ∀ {kind branches discriminator mapping},
    form = .union kind branches discriminator mapping →
    schema.has "unevaluatedProperties" = true → 2 ≤ branches.length →
    ∀ b, Selectable branches mapping b →
    ∀ e, F b e → e.hasModifier "catchall" = false → T.calls e
  checkedAllOf : ∀ {branches}, form = .allOf branches → isChecked schema = true →
    ∀ {inner inner'}, InnerHolds T X F (PartOf schema) inner inner' →
    Gives X (Admits T) (compileAllOf env inner branches (isNullable schema false))
  checkedUnion : ∀ {kind b discriminator mapping},
    form = .union kind [b] discriminator mapping → isChecked schema = true →
    ∀ e, F b e → Admits T (e.nullableIf (isNullable schema false))

section Forms

variable {inner inner' : Inner} {refer refer' : Refer} {schema : Fields} {form : Form}
  (h : InnerHolds T X F (PartOf schema) inner inner')
include h

theorem compileSeveralTypes_holds (hseveral : 1 < (nonNullTypes schema).length) :
    Same X T.Holds (compileSeveralTypes inner schema (nonNullTypes schema))
      (compileSeveralTypes inner' schema (nonNullTypes schema)) := by
  refine (Same.mapM fun type ht => h.holds (.oneType hseveral ht) true).bind
    fun es hes => .pure ?_
  exact T.zod (List.forall_mem_singleton.mpr (T.array (List.forall_mem_map.mpr hes)))

/-- A negation is a refinement of what is left of the schema. -/
theorem compileNegation_holds {excluded : Value} (held : schema.get? "not" = some excluded) :
    Same X T.Holds (compileNegation inner schema excluded)
      (compileNegation inner' schema excluded) := by
  refine (h.holds (.excluded held) true).bind fun e he => ?_
  refine Same.iteBind (Q := T.Holds) (fun _ => ?_) (fun _ => .pure (T.zod_nil _))
    fun base hbase => .pure ?_
  · exact h.holds (.remainder (Fields.has_of_get? held)) true
  · exact Holds.refine hbase (T.code (by simpa using he)) (T.messageOptions _)

theorem compileObjectForm_holds {constrained : Bool} :
    Same X T.Holds (compileObjectForm env inner schema constrained)
      (compileObjectForm env inner' schema constrained) := by
  have hempty : ∀ o : EmptyObject, T.Holds (compileEmptyObject o) := by
    intro o
    cases o with
    | strict => exact T.zod (List.forall_mem_singleton.mpr (T.shape (by simp)))
    | record => exact T.zod (by simpa using ⟨T.zod_nil "string", T.zod_nil "unknown"⟩)
    | loose => exact T.zod (List.forall_mem_singleton.mpr (T.shape (by simp)))
  unfold compileObjectForm
  refine Same.ite (fun _ => ?_) fun _ => ?_
  · refine (compileObject_holds h).bind fun e he => ?_
    have hadmits : Admits T e := by
      unfold Admits bareOf
      split
      · exact Or.inl (T.calls_dropLast he.calls)
      · exact Or.inl he.calls
    exact (checkUnevaluated_holds h he.holds fun _ => hadmits).bind
      fun e he => .pure (Holds.describe he _ _)
  · split
    · rename_i values hvalues
      have hpart : PartOf schema (.object values) := .of_value (by decide) hvalues
      refine (h.holds hpart false).bind fun e he => .pure (Holds.describe (T.zod ?_) _ _)
      simpa using ⟨T.zod_nil "string", he⟩
    · exact .pure (Holds.describe (hempty _) _ _)
    · exact .pure (Holds.describe (hempty _) _ _)

variable (hd : T.Holds env.context.dateTime) (hform : FormOf schema form)
  (hr : ∀ ref top, form = .reference ref (Naming.targetName ref) → Same X T.Holds
    (refer ref (Naming.targetName ref) top) (refer' ref (Naming.targetName ref) top))
include hd hform hr

/-- **A schema of any form that is not a composition.** -/
theorem compileForm_holds {top : Bool} :
    Same X T.Holds (compileForm env refer inner schema top form)
      (compileForm env refer' inner' schema top form) := by
  have hplain : ∀ name, T.Holds ((zod name []).describe (schema.value "description") env.describes) :=
    fun name => Holds.describe (T.zod_nil name) _ _
  cases hform with
  | severalTypes several => exact compileSeveralTypes_holds h several
  | reference held => exact hr _ _ rfl
  | constant held => exact .pure (T.zod (by simpa using T.literal _))
  | enum held walked => exact .pure holds_compileEnum
  | negation held => exact compileNegation_holds h held
  | allOf held walked => exact .pure (hplain _)
  | union held walked told => exact .pure (hplain _)
  | ofType =>
    rcases formOfType_cases schema with hf | ⟨isInteger, hf⟩ | hf | hf | ⟨constrained, hf⟩ | hf
    all_goals rw [hf]
    · exact compileString_holds hd
    · exact .pure holds_compileNumber
    · exact .pure (hplain _)
    · exact compileArray_holds h
    · exact compileObjectForm_holds h
    · exact .pure (hplain _)

/-- **A schema of any form, if its branches allow the calls that are made on them.** -/
theorem compileClassified_holds (hsites : FormSites T X F env schema form) {top branch : Bool} :
    Same X T.Holds (compileClassified env refer inner schema top branch form)
      (compileClassified env refer' inner' schema top branch form) := by
  have hother : Same X T.Holds
      (do
        let e ← compileForm env refer inner schema top form
        return e.nullableIf (isNullable schema
          (defaultApplies schema top branch && env.context.defaultNullable.isSet)))
      (do
        let e ← compileForm env refer' inner' schema top form
        return e.nullableIf (isNullable schema
          (defaultApplies schema top branch && env.context.defaultNullable.isSet))) :=
    (compileForm_holds h hd hform hr).bind fun e he => .pure (Holds.nullableIf he _)
  cases hform with
  | allOf held walked =>
    have hbranches : ∀ b ∈ _, InnerHolds T X F (BranchPart b) inner inner' :=
      fun b hb v flag hv => h v flag (.branch (by decide) held walked hb hv)
    by_cases hchecked : isChecked schema = true
    · refine ((compileAllOf_holds hbranches (hsites.allOf rfl)).and
        (hsites.checkedAllOf rfl hchecked h)).bind fun e he => ?_
      exact checkUnevaluated_holds h he.1 fun _ => he.2
    · refine (compileAllOf_holds hbranches (hsites.allOf rfl)).bind fun e he => ?_
      exact checkUnevaluated_holds h he fun hc => absurd hc hchecked
  | @union kind value branches discriminator held walked told =>
    have hkind : kind.keyword ∈ ["allOf", "oneOf", "anyOf"] := by cases kind <;> decide
    refine (compileUnion_holds h (fun b hb => ?_) (hsites.admitting rfl)
      fun hc b hb => ?_).bind fun e he => checkUnevaluated_holds h he.1 he.2
    · rcases hb with hlisted | ⟨targets, name, t, hm, ht, rfl⟩
      · exact .branch hkind held walked hlisted (.self b)
      · rcases Value.fieldsIfSet_eq_ok told with rfl | htold
        · cases hm
        · exact .target htold hm ht
    · subst hb
      exact hsites.checkedUnion rfl hc
  | ofType =>
    rcases formOfType_cases schema with hf | ⟨_, hf⟩ | hf | hf | ⟨_, hf⟩ | hf
    all_goals
      rw [hf] at hother ⊢
      exact hother
  | severalTypes several => exact hother
  | reference held => exact hother
  | constant held => exact hother
  | enum held walked => exact hother
  | negation held => exact hother

end Forms

/-! ## Schemas -/

/-- What is asked of the schemas in a set, and of two ways to compile references, so that a condition
holds of everything compiled from the set. -/
structure TreeRules (T : TreeCondition) (X : String) (F : Value → Expression → Prop)
    (env : Environment) (refer refer' : Refer) (D : Value → Prop) : Prop where
  dateTime : T.Holds env.context.dateTime
  parts : ∀ {schema fields v}, D (.object schema) → visibleFields env schema = .ok fields →
    PartOf fields v → D v
  references : ∀ {schema fields ref} (top : Bool), D (.object schema) →
    visibleFields env schema = .ok fields →
    classify fields = .ok (.reference ref (Naming.targetName ref)) → Same X T.Holds
      (refer ref (Naming.targetName ref) top) (refer' ref (Naming.targetName ref) top)
  sites : ∀ {schema fields form}, D (.object schema) → visibleFields env schema = .ok fields →
    classify fields = .ok form → FormSites T X F env fields form
  /-- What is known of branches comes from what is known of the branches inside them. -/
  branch : ∀ {schema fields form}, D (.object schema) → visibleFields env schema = .ok fields →
    classify fields = .ok form → ∀ {inner inner'}, InnerHolds T X F (PartOf fields) inner inner' →
    Gives X (F (.object schema)) (compileClassified env refer inner fields false true form)
  truth : ∀ b e, F (.bool b) e

namespace TreeRules

variable {refer refer' : Refer} {D : Value → Prop} (rules : TreeRules T X F env refer refer' D)
include rules

theorem compileFields_holds {inner inner' : Inner} {schema : Fields} (hs : D (.object schema))
    (h : InnerHolds T X F D inner inner') {top branch : Bool} :
    Same X (fun e => T.Holds e ∧ (top = false → branch = true → F (.object schema) e))
      (compileFields env refer inner schema top branch)
      (compileFields env refer' inner' schema top branch) := by
  refine Same.liftBind fun fields hfields => Same.liftBind fun form hform => ?_
  have hinner : InnerHolds T X F (PartOf fields) inner inner' :=
    fun v flag hv => h v flag (rules.parts hs hfields hv)
  have hholds : Same X T.Holds (compileClassified env refer inner fields top branch form)
      (compileClassified env refer' inner' fields top branch form) := by
    refine compileClassified_holds hinner rules.dateTime (formOf_of_classify hform)
      (fun ref top href => ?_) (rules.sites hs hfields hform)
    exact rules.references top hs hfields (href ▸ hform)
  refine hholds.and fun p e q hp he ht hb => ?_
  subst ht hb
  exact rules.branch hs hfields hform hinner p e q hp he

/-- **By induction on the levels left: schemas of any depth.** -/
theorem compileWithin_holds : ∀ (levels : Nat) (v : Value) (top branch : Bool), D v →
    Same X (fun e => T.Holds e ∧ (top = false → branch = true → F v e))
      (compileWithin env refer top branch levels v)
      (compileWithin env refer' top branch levels v) := by
  intro levels
  induction levels with
  | zero =>
    intro v top branch hv
    unfold compileWithin
    split
    · exact .pure ⟨T.zod_nil _, fun _ _ => rules.truth _ _⟩
    · exact Same.session.bind fun s _ => Same.fail _
    · rename_i hlevels
      cases hlevels
    · exact Same.session.bind fun s _ => Same.fail _
  | succ levels ih =>
    intro v top branch hv
    unfold compileWithin
    split
    · exact .pure ⟨T.zod_nil _, fun _ _ => rules.truth _ _⟩
    · rename_i hlevels
      cases hlevels
    · rename_i levels' schema hlevels
      cases hlevels
      have hinner : InnerHolds T X F D
          (fun v branch => compileWithin env refer false branch levels v)
          (fun v branch => compileWithin env refer' false branch levels v) :=
        fun v branch hv => (ih v false branch hv).mono fun e he => ⟨he.1, he.2 rfl⟩
      refine Same.nested (Same.liftBind fun key _ => Same.session.bind fun s hname => ?_)
      refine Same.ite (fun _ => rules.compileFields_holds hv hinner) fun hc => ?_
      -- a schema compiled under a name is not cached
      exact absurd hc (by simp [hname])
    · exact Same.session.bind fun s _ => Same.fail _

/-- **Every schema has the condition**, from a step that does at any number of levels. -/
theorem compileSchemaWith_holds {v : Value} (hv : D v) {top branch : Bool} :
    Same X T.Holds (compileSchemaWith env refer v top branch)
      (compileSchemaWith env refer' v top branch) :=
  Same.session.bind fun _ _ => (rules.compileWithin_holds _ v top branch hv).mono fun _ he => he.1

/-- **The two ways to compile references compile a named schema the same way.** -/
theorem compileNamedWith_eq {v : Value} (hv : D v) :
    compileNamedWith env refer X v = compileNamedWith env refer' X v := by
  funext p
  have hsame : Same X T.Holds (compileSchemaWith env refer v true false)
      (compileSchemaWith env refer' v true false) := rules.compileSchemaWith_holds hv
  have hrun : ∀ refer, compileNamedWith env refer X v p = (inSession { name := some X }
      (compileSchemaWith env refer v true false) (failureOf X)).run p := fun _ => rfl
  rw [hrun, hrun, run_inSession, run_inSession,
    (hsame { p with session := { name := some X } } rfl).1]

/-- **The condition holds of every named schema that is compiled.** -/
theorem holds_compileNamedWith {v : Value} (hv : D v) {p q : Progress} {e : Expression}
    {s : Session} (he : (compileNamedWith env refer X v).run p = (.ok (e, s), q)) : T.Holds e := by
  obtain ⟨r, hrun, -⟩ := run_inSession_eq_ok he
  exact ((rules.compileSchemaWith_holds hv _ rfl).2 e r hrun).2

end TreeRules

end SchemaForge.Compile
