import SchemaForge.Proofs.Compile.LedgerParts
import SchemaForge.Proofs.Compile.Trees

/-!
# Keeping the books of schemas

A schema of any form keeps the books of a ledger, if the references and the declared properties do
(`LedgerRules`). Nothing that is compiled gets lost on the way: a branch that turns out not to extend
a composition is compiled once more to be intersected, which gives the same expression and so enters
the same marks again, and what is taken off before a check is a `nullable` without arguments.
-/

namespace SchemaForge.Compile

open Schema Ledger Expression

variable {L : Ledger} {env : Environment} {schema : Fields} {D : Value → Prop} {inner : Inner}

/-! ## Branches -/

/-- The marks of what a schema compiles to as a branch, whenever it is compiled. -/
def Given (L : Ledger) (inner : Inner) (v : Value) : Set Mark :=
  {k | ∃ p e q, L.Open p ∧ (inner v true).run p = (.ok e, q) ∧ k ∈ e.marks}

/-- What a branch gives to be entered is what it compiles to, in any state with open books. -/
theorem InnerBooks.given_eq (h : InnerBooks L D inner) {v : Value} {p q : Progress} {e : Expression}
    (hp : L.Open p) (he : (inner v true).run p = (.ok e, q)) : Given L inner v = e.marks := by
  ext k
  constructor
  · rintro ⟨p', e', q', hp', he', hk⟩
    have hagree := h.twice v true p p' ⟨hp, hp'⟩
    rw [he, he'] at hagree
    cases hagree with
    | ok heq => rwa [heq]
  · exact fun hk => ⟨p, e, q, hp, he, hk⟩

/-- A branch enters the same marks whenever it is compiled. -/
theorem InnerBooks.given (h : InnerBooks L D inner) {v : Value} (hv : D v) :
    L.Books ∅ (fun e => e.PlainNull ∧ e.marks = Given L inner v) marks (inner v true) := by
  intro marks p hp
  have hends := h.enters hv true marks p hp
  rcases hrun : (inner v true).run p with ⟨result, q⟩
  rw [hrun] at hends
  cases hends with
  | ok hplain hq => exact .ok ⟨hplain, (h.given_eq hp.toOpen hrun).symm⟩ hq
  | error hf => exact .error hf

/-- Leaving properties out is a call with a literal, so it has no marks of its own. -/
theorem omitting_marks {names : List Scalar} {e e' : Expression} (he : e.PlainNull)
    (h : omitting names e = .ok e') : e'.PlainNull ∧ e'.marks = e.marks := by
  unfold omitting at h
  split at h
  · cases h
    exact ⟨he, rfl⟩
  · obtain ⟨mask, hmask, h⟩ := Outcome.bind_eq_ok.mp h
    obtain ⟨keys, -, hmask⟩ := Outcome.bind_eq_ok.mp hmask
    cases hmask
    cases h
    simp [he]

/-- A property that a branch declares, after it lost some. -/
def BranchDeclares (branch : Value) (name : Scalar) (v : Value) : Prop :=
  ∃ omitted fields, reduceBranch omitted branch = .ok (some (.object fields)) ∧
    DeclaresOwn fields name v

/-- What an extension has entered: its shape, or what was compiled to find that there is none. -/
def extended (L : Ledger) (inner : Inner) (branch : Fields) : Option Node → Set Mark
  | some shape => shape.marks
  | none => Given L inner (.object branch)

section Branch

variable {branch : Value} (h : InnerBooks L (BranchPart branch) inner)
include h

/-- What extends the result is a shape, or a branch that exposes one. -/
theorem extension_books {omitted : List Scalar} {fields : Fields}
    (hreduced : reduceBranch omitted branch = .ok (some (.object fields)))
    (hnames : Allows L env (BranchDeclares branch)) :
    L.Books ∅ (fun _ => True) (extended L inner fields) (extension env inner omitted fields) := by
  have hshape : ∀ e : Expression, e.PlainNull →
      L.Books e.marks (fun _ => True) (extended L inner fields)
        (do return some (.member (← omitting omitted e).toNode "shape")) := by
    intro e he
    refine Books.liftBind fun e' he' => .pure trivial ?_
    simpa [extended] using (omitting_marks he he').2
  refine Books.ite (fun _ => ?_) fun _ => Books.ite (fun _ => ?_) fun _ => ?_
  · refine (h.given (.whole hreduced)).bind fun e he => ?_
    exact Books.ite (fun _ => hshape e he.1) fun _ => .pure trivial he.2.symm
  · refine (h.given (.whole hreduced)).bind fun e he => ?_
    exact Books.ite (fun _ => .pure trivial he.2.symm) fun _ => hshape e he.1
  · refine (compileShape_books h (fun name v ⟨_, hd, hv⟩ => .property hreduced hd hv)
      fun name v hv => hnames name v ⟨_, _, hreduced, hv⟩).bind fun n _ => .pure trivial rfl

/-- What is met with the result is the whole branch. -/
theorem intersection_books {omitted : List Scalar} {left : Value}
    (hreduced : reduceBranch omitted branch = .ok (some left)) :
    L.Books ∅ (fun e => e.PlainNull ∧ e.marks = Given L inner left) marks
      (intersection inner omitted left) := by
  refine (h.given (.whole hreduced)).bind fun e he => Books.liftBind fun isRef _ => ?_
  refine Books.ite (fun _ => Books.lift fun e' he' => ?_) fun _ => .pure he rfl
  obtain ⟨hplain, hmarks⟩ := omitting_marks he.1 he'
  exact ⟨⟨hplain, hmarks.trans he.2⟩, hmarks⟩

/-- A branch enters behind the result so far. -/
theorem mergeBranch_books {m : Merge} (hm : m.result.PlainNull) {omitted : List Scalar}
    (hnames : Allows L env (BranchDeclares branch)) :
    L.Books m.result.marks (fun m => m.result.PlainNull) (fun m => m.result.marks)
      (mergeBranch env inner m branch omitted) := by
  refine Books.liftBind fun reduced hreduced => ?_
  cases reduced with
  | none => exact .pure hm rfl
  | some left =>
    -- marks of the branch that are entered already are entered once more
    have hintersected : ∀ before : Set Mark,
        before ∪ Given L inner left = m.result.marks ∪ Given L inner left →
        L.Books before (fun m : Merge => m.result.PlainNull) (fun m => m.result.marks)
          (do
            let e ← intersection inner omitted left
            return ⟨m.result.andThen "and" [e.toNode], false⟩) := by
      intro before hbefore
      refine (intersection_books h hreduced).andThen fun e he => .pure (by simp [hm]) ?_
      simp [he.2, hbefore]
    cases left with
    | scalar s => exact hintersected _ rfl
    | list vs => exact hintersected _ rfl
    | object fields =>
      refine Books.ite (fun _ => ?_) fun _ => hintersected _ rfl
      refine (extension_books h hreduced hnames).andThen fun argument _ => ?_
      cases argument with
      | none => exact hintersected _ (by simp [extended, Set.union_assoc])
      | some shape => exact .pure (by simp [hm]) (by simp [extended])

end Branch

/-! ## Compositions -/

/-- All branches, by induction on them: each enters behind those before. -/
theorem mergeBranches_books : ∀ {branches : List (Value × List Scalar)} {m : Merge},
    m.result.PlainNull → (∀ b ∈ branches, InnerBooks L (BranchPart b.1) inner) →
    (∀ b ∈ branches, Allows L env (BranchDeclares b.1)) →
    L.Books m.result.marks (fun m => m.result.PlainNull) (fun m => m.result.marks)
      (mergeBranches env inner m branches)
  | [], _, hm, _, _ => .pure hm rfl
  | (branch, omitted) :: rest, _, hm, h, hnames => by
    obtain ⟨hbranch, hrest⟩ := List.forall_mem_cons.mp h
    obtain ⟨hn, hnrest⟩ := List.forall_mem_cons.mp hnames
    exact (mergeBranch_books hbranch hm hn).bind fun _ hm => mergeBranches_books hm hrest hnrest

/-- **A composition enters its branches**, and the note of its conflicts has no marks. -/
theorem compileAllOf_enters {branches : List Value} {nullable : Bool}
    (h : ∀ b ∈ branches, InnerBooks L (BranchPart b) inner)
    (hnames : ∀ b ∈ branches, Allows L env (BranchDeclares b)) :
    L.Enters (compileAllOf env inner branches nullable) := by
  unfold compileAllOf
  split
  · exact ((h _ List.mem_cons_self).enters (.self _) true).bind fun e he =>
      .pure (by simpa using he) (by simp)
  · refine Books.liftBind fun scan _ => ?_
    refine (Books.forM fun c _ => Books.addConflict c).bind fun _ _ => ?_
    split
    · exact .fail (L.fault _)
    · rename_i first rest _
      obtain ⟨hfirst, hrest⟩ := List.forall_mem_cons.mp h
      refine (hfirst.enters (.self _) true).bind fun head hhead => ?_
      refine Books.iteBind (Q := fun _ => True) (A := fun _ => head.marks)
        (fun _ => Books.lift fun _ _ => ⟨trivial, rfl⟩) (fun _ => .pure trivial rfl)
        fun extensible _ => ?_
      refine (mergeBranches_books (m := ⟨head, extensible⟩) hhead
        (fun b hb => hrest _ (List.of_mem_zip hb).1)
        fun b hb => hnames _ (List.mem_cons_of_mem _ (List.of_mem_zip hb).1)).bind
        fun m hm => .pure ?_ ?_
      · exact plainNull_nullableIf.mpr (.ite hm (by simp [hm]))
      · simp

theorem plainNull_bareOf {e : Expression} (he : e.PlainNull) : (bareOf e).PlainNull := by
  unfold bareOf
  split
  · exact he.dropLast
  · exact he

theorem marks_bareOf {e : Expression} (he : e.PlainNull) : (bareOf e).marks = e.marks := by
  unfold bareOf
  split
  · rename_i hnull
    exact marks_dropLast he hnull
  · rfl

@[simp] theorem marks_admitUnevaluated (e : Expression) : (admitUnevaluated e).marks = e.marks := by
  unfold admitUnevaluated
  dsimp only
  split <;> simp

theorem plainNull_admitUnevaluated {e : Expression} (he : e.PlainNull) :
    (admitUnevaluated e).PlainNull := by
  unfold admitUnevaluated
  dsimp only
  split
  · simpa using he
  · exact he

/-- The check of unevaluated properties enters one schema, if it has one. -/
theorem checkUnevaluated_books (h : InnerBooks L (PartOf schema) inner) {before : Set Mark}
    {e : Expression} (he : e.PlainNull) (hmarks : e.marks = before) :
    L.Books before PlainNull marks (checkUnevaluated env inner schema e) := by
  have hplain : (admitUnevaluated (bareOf e)).PlainNull :=
    plainNull_admitUnevaluated (plainNull_bareOf he)
  have hbare : (admitUnevaluated (bareOf e)).marks = before := by
    rw [marks_admitUnevaluated, marks_bareOf he, hmarks]
  unfold checkUnevaluated
  dsimp only
  rw [← bareOf]
  split
  · refine Books.liftBind fun names _ => Books.liftBind fun evaluated _ => .pure ?_ ?_
    · simpa using hplain
    · simpa using hbare
  · rename_i rule hrule
    have hpart : PartOf schema (.object rule) := .of_value (by decide) hrule
    refine Books.liftBind fun names _ => Books.liftBind fun evaluated _ => ?_
    refine Books.bind (Q := PlainNull) (A := marks) ?_ fun checked hc =>
      .pure (by simpa using hc) (by simp)
    refine (h.enters hpart true).andThen fun r _ => .pure ?_ ?_
    · simpa using hplain
    · simpa using congrArg (· ∪ r.marks) hbare
  · exact .pure he hmarks

theorem selectBranches_still {branches : List Value} {discriminator mapping : Value} :
    L.Still (fun r => ∀ b ∈ r.1, Selectable branches mapping b)
      (selectBranches env branches discriminator mapping) := by
  refine Books.ite (fun _ => ?_) fun _ => .pure (fun b hb => Or.inl hb) rfl
  refine Books.iteBind (Q := fun bs => ∀ b ∈ bs, Selectable branches mapping b)
    (A := fun _ => ∅) (fun _ => ?_) (fun _ => .pure (fun b hb => Or.inl hb) rfl)
    fun ordered hordered => ?_
  · exact Books.lift fun ordered hordered => ⟨fun b hb => mem_orderByMapping hordered hb, rfl⟩
  · refine Books.liftBind fun required _ => Books.ite (fun _ => .pure hordered rfl) fun _ => ?_
    refine Books.session.bind fun s _ => ?_
    exact (Books.addWarning _).bind fun _ _ => .pure hordered rfl

@[simp] theorem marks_unionOf {discriminator : Option Value} {es : List Expression} :
    (unionOf discriminator es).marks = Expression.marksAll es := by
  cases discriminator <;> simp [unionOf]

@[simp] theorem plainNull_unionOf {discriminator : Option Value} {es : List Expression} :
    (unionOf discriminator es).PlainNull := by
  cases discriminator <;> simp [unionOf]

theorem marksAll_ensureAdmits (es : List Expression) :
    Expression.marksAll (es.map ensureAdmits) = Expression.marksAll es := by
  simp [Expression.marksAll]

/-- **A union enters the branches that are selected.** -/
theorem compileUnion_enters (h : InnerBooks L D inner) {kind : UnionKind} {branches : List Value}
    {discriminator mapping : Value} {nullable admitting : Bool}
    (hD : ∀ b, Selectable branches mapping b → D b) :
    L.Enters (compileUnion env inner kind branches discriminator mapping nullable admitting) := by
  unfold compileUnion
  split
  · refine Books.session.bind fun s _ => ?_
    exact (Books.addWarning _).bind fun _ _ => .pure (by simp) (by simp)
  · exact (h.enters (hD _ (Or.inl List.mem_cons_self)) true).bind fun e he =>
      .pure (by simpa using he) (by simp)
  · refine selectBranches_still.bind fun r hr => ?_
    obtain ⟨selected, selector⟩ := r
    refine (enters_mapM fun b hb => h.enters (hD b (hr b hb)) true).bind fun es _ => .pure ?_ ?_
    · cases selector <;> simp
    · have hadmitted : Expression.marksAll (if admitting then es.map ensureAdmits else es) =
          Expression.marksAll es := by
        split
        · exact marksAll_ensureAdmits es
        · rfl
      cases selector <;> simp [hadmitted]

/-! ## Forms -/

/-- A property that a shape may declare when a schema with the given visible fields is compiled: one
of its own, or one of a branch of an `allOf`. -/
inductive Declares (schema : Fields) (name : Scalar) (v : Value) : Prop where
  | own (declared : DeclaresOwn schema name v) : Declares schema name v
  | branch {value : Value} {branches : List Value} {b : Value}
      (held : schema.get? "allOf" = some value) (walked : value.walk = .ok branches)
      (listed : b ∈ branches) (declared : BranchDeclares b name v) : Declares schema name v

section Forms

variable {refer : Refer} {form : Form} (h : InnerBooks L (PartOf schema) inner)
include h

/-- A schema of several types enters itself once for each of them. -/
theorem compileSeveralTypes_enters (hseveral : 1 < (nonNullTypes schema).length) :
    L.Enters (compileSeveralTypes inner schema (nonNullTypes schema)) :=
  (enters_mapM fun _ ht => h.enters (.oneType hseveral ht) true).bind fun _ _ =>
    .pure (by simp) (by simp)

/-- A negation enters what it excludes, then what is left of the schema. -/
theorem compileNegation_enters {excluded : Value} (held : schema.get? "not" = some excluded) :
    L.Enters (compileNegation inner schema excluded) := by
  refine (h.enters (.excluded held) true).bind fun e _ => ?_
  refine Books.iteBind (Q := PlainNull) (A := fun base => e.marks ∪ base.marks) (fun _ => ?_)
    (fun _ => .pure (by simp) (by simp)) fun base hbase => .pure (by simp [hbase]) ?_
  · exact (h.enters (.remainder (Fields.has_of_get? held)) true).frame e.marks
  · simp [Set.union_comm]

theorem compileObjectForm_enters {constrained : Bool}
    (hnames : Allows L env (DeclaresOwn schema)) :
    L.Enters (compileObjectForm env inner schema constrained) := by
  have hempty : ∀ o : EmptyObject, (compileEmptyObject o).Blank := by
    intro o
    cases o <;> exact blank_zod (by simp)
  unfold compileObjectForm
  refine Books.ite (fun _ => ?_) fun _ => ?_
  · refine (compileObject_enters h hnames).bind fun e he => ?_
    exact (checkUnevaluated_books h he rfl).bind fun e he => .pure (by simpa using he) (by simp)
  · split
    · rename_i values hvalues
      have hpart : PartOf schema (.object values) := .of_value (by decide) hvalues
      exact (h.enters hpart false).bind fun e _ => .pure (by simp) (by simp)
    · exact .pure ((hempty _).describe _ _).plain ((hempty _).describe _ _).marks
    · exact .pure ((hempty _).describe _ _).plain ((hempty _).describe _ _).marks

variable (hd : env.context.dateTime.Blank) (hform : FormOf schema form)
  (hnames : Allows L env (Declares schema)) {top : Bool}
  (hr : ∀ ref, form = .reference ref (Naming.targetName ref) →
    L.Enters (refer ref (Naming.targetName ref) top))
include hd hform hnames hr

/-- **Whatever its form, a schema keeps the books.** -/
theorem compileForm_enters : L.Enters (compileForm env refer inner schema top form) := by
  have hblank : ∀ {e : Expression}, e.Blank → L.Enters (pure e) := fun he => .pure he.plain he.marks
  have hplain : ∀ name, L.Enters
      (pure ((zod name []).describe (schema.value "description") env.describes)) :=
    fun name => .pure (by simp) (by simp)
  cases hform with
  | severalTypes several => exact compileSeveralTypes_enters h several
  | reference held => exact hr _ rfl
  | constant held => exact .pure (by simp) (by simp)
  | enum held walked => exact hblank blank_compileEnum
  | negation held => exact compileNegation_enters h held
  | allOf held walked => exact hplain _
  | union held walked told => exact hplain _
  | ofType =>
    rcases formOfType_cases schema with hf | ⟨isInteger, hf⟩ | hf | hf | ⟨constrained, hf⟩ | hf
    all_goals rw [hf]
    · exact (compileString_still hd).enters
    · exact hblank blank_compileNumber
    · exact hplain _
    · exact compileArray_enters h
    · exact compileObjectForm_enters h fun name v hv => hnames name v (.own hv)
    · exact hplain _

/-- **A schema of any form keeps the books.** -/
theorem compileClassified_enters {branch : Bool} :
    L.Enters (compileClassified env refer inner schema top branch form) := by
  have hother : L.Enters
      (do
        let e ← compileForm env refer inner schema top form
        return e.nullableIf (isNullable schema
          (defaultApplies schema top branch && env.context.defaultNullable.isSet))) :=
    (compileForm_enters h hd hform hnames hr).bind fun e he => .pure (by simpa using he) (by simp)
  cases hform with
  | allOf held walked =>
    refine (compileAllOf_enters (fun b hb => ?_) fun b hb => ?_).bind fun e he =>
      checkUnevaluated_books h he rfl
    · exact ⟨fun hv => h.enters (.branch (by decide) held walked hb hv), h.twice⟩
    · exact fun name v hv => hnames name v (.branch held walked hb hv)
  | @union kind value branches discriminator held walked told =>
    have hkind : kind.keyword ∈ ["allOf", "oneOf", "anyOf"] := by cases kind <;> decide
    refine (compileUnion_enters h fun b hb => ?_).bind fun e he => checkUnevaluated_books h he rfl
    rcases hb with hlisted | ⟨targets, name, t, hm, ht, rfl⟩
    · exact .branch hkind held walked hlisted (.self b)
    · rcases Value.fieldsIfSet_eq_ok told with rfl | htold
      · cases hm
      · exact .target htold hm ht
  | ofType =>
    rcases formOfType_cases schema with hf | ⟨_, hf⟩ | hf | hf | ⟨_, hf⟩ | hf
    all_goals
      rw [hf] at hother ⊢
      exact hother
  | severalTypes several => exact hother
  | reference held => exact hother
  | constant held => exact hother
  | enum held walked => exact hother
  | negation held => exact hother

end Forms

/-! ## References -/

/-- The constant that a reference to a schema names: that of the schema it stands for. -/
def constantOf (env : Environment) (name : String) : Except Fault String := do
  env.constName (← Reference.resolveAlias env.schemas name)

/-- **A reference keeps the books if entering its constant does**, together with the dependency that
is recorded for it. -/
theorem compileReference_enters {ref name : String} {top : Bool}
    (hmissing : env.schemas.has name = false → ∀ place, L.fails (.unresolved ref place (.text L.owner)))
    (hconst : env.schemas.has name = true → ∀ const, constantOf env name = .ok const →
      L.Books ∅ (fun _ => True) (fun _ => {.name const})
        (if L.owner != "" && !top then addDependency name else pure ())) :
    L.Enters (compileReference env ref name top) := by
  refine Books.session.bind fun s hs => ?_
  have hs : s.name = some L.owner := hs
  rw [hs]
  refine Books.ite (fun hno => .fail (hmissing (by simpa using hno) _)) fun hknown => ?_
  refine Books.liftBind fun r hr => ?_
  have hknown : env.schemas.has name = true := by simpa using hknown
  cases hc : env.constName r with
  | error f =>
    -- without a constant the run fails, with the dependency recorded
    exact Books.ite (fun _ _ _ _ => .error (L.fault f)) fun _ _ _ _ => .error (L.fault f)
  | ok const =>
    have hname : constantOf env name = .ok const := by
      rw [constantOf, hr]
      exact hc
    have hentered := hconst hknown const hname
    have hdeferred : ∀ type, L.Books {.name const} PlainNull marks
        (pure (deferredRef const type)) := fun type => .pure (by simp) (by simp)
    have hrest : L.Books {.name const} PlainNull marks
        (if mustDefer env L.owner name r then
          if env.context.separateTypes.isSet then do
            let type ← liftM (env.typeName r)
            pure (deferredRef const ("z.ZodType<" ++ type ++ ">"))
          else pure (deferredRef const "z.ZodTypeAny")
        else pure (plainRef const)) := by
      refine Books.ite (fun _ => Books.ite (fun _ => ?_) fun _ => hdeferred _) fun _ => ?_
      · exact Books.liftBind fun type _ => hdeferred _
      · exact .pure (by simp) (by simp)
    refine Books.ite (fun hadd => ?_) fun hskip => ?_
    · rw [if_pos hadd] at hentered
      exact hentered.bind fun _ _ => hrest
    · rw [if_neg hskip] at hentered
      exact hentered.bind fun _ _ => hrest

/-- Neither constants nor dependencies matter to the books. -/
def Ledger.Indifferent (L : Ledger) : Prop :=
  ∀ {marks dependencies} dependencies' const, L.booked marks dependencies →
    L.booked (marks ∪ {.name const}) dependencies'

/-- Then all that matters about a reference is what happens if there is no schema. -/
theorem Ledger.Indifferent.compileReference_enters (h : L.Indifferent) {ref name : String} {top : Bool}
    (hmissing : env.schemas.has name = false →
      ∀ place, L.fails (.unresolved ref place (.text L.owner))) :
    L.Enters (compileReference env ref name top) := by
  refine Compile.compileReference_enters hmissing fun _ const _ => Books.ite (fun _ => ?_) fun _ => ?_
  · intro marks p hp
    rw [Set.union_empty] at hp
    obtain ⟨q, hrun, hname, hcaches, -⟩ := run_addDependency name p
    rw [hrun]
    exact .ok trivial ⟨⟨hname.trans hp.name, hcaches ▸ hp.patterns⟩, h _ const hp.booked⟩
  · intro marks p hp
    rw [Set.union_empty] at hp
    exact .ok trivial ⟨hp.toOpen, h _ const hp.booked⟩

/-! ## Schemas -/

/-- What is asked of the schemas in a set and of the way to compile references, so that everything
compiled from the set keeps the books. -/
structure LedgerRules (L : Ledger) (env : Environment) (refer : Refer) (D : Value → Prop) :
    Prop where
  dateTime : env.context.dateTime.Blank
  parts : ∀ {schema fields v}, D (.object schema) → visibleFields env schema = .ok fields →
    PartOf fields v → D v
  declares : ∀ {schema fields}, D (.object schema) → visibleFields env schema = .ok fields →
    Allows L env (Declares fields)
  /-- References inside of schemas; one that is a whole definition need not keep the books. -/
  references : ∀ {schema fields ref}, D (.object schema) → visibleFields env schema = .ok fields →
    classify fields = .ok (.reference ref (Naming.targetName ref)) →
    L.Enters (refer ref (Naming.targetName ref) false)
  twice : ReferAlike L.both True refer refer

/-- If a definition is a reference, that keeps the books. -/
def RootEnters (L : Ledger) (env : Environment) (refer : Refer) (v : Value) : Prop :=
  ∀ schema fields ref, v = .object schema → visibleFields env schema = .ok fields →
    classify fields = .ok (.reference ref (Naming.targetName ref)) →
    L.Enters (refer ref (Naming.targetName ref) true)

namespace LedgerRules

variable {refer : Refer} (rules : LedgerRules L env refer D)
include rules

/-- The same for its visible fields. -/
theorem compileFields_enters (hs : D (.object schema)) (h : InnerBooks L D inner)
    {top branch : Bool} (hroot : top = true → RootEnters L env refer (.object schema)) :
    L.Enters (compileFields env refer inner schema top branch) := by
  refine Books.liftBind fun fields hfields => Books.liftBind fun form hform => ?_
  have hinner : InnerBooks L (PartOf fields) inner :=
    ⟨fun hv => h.enters (rules.parts hs hfields hv), h.twice⟩
  refine compileClassified_enters hinner rules.dateTime (formOf_of_classify hform)
    (rules.declares hs hfields) fun ref href => ?_
  cases top with
  | true => exact hroot rfl schema fields ref rfl hfields (href ▸ hform)
  | false => exact rules.references hs hfields (href ▸ hform)

/-- **By induction on the levels left: schemas of any depth keep the books.** -/
theorem compileWithin_enters : ∀ (levels : Nat) (v : Value) (top branch : Bool), D v →
    (top = true → RootEnters L env refer v) →
    L.Enters (compileWithin env refer top branch levels v) := by
  have hnone : ∀ name, L.Enters (pure (zod name [])) := fun name => .pure (by simp) (by simp)
  intro levels
  induction levels with
  | zero =>
    intro v top branch hv hroot
    unfold compileWithin
    split
    · exact hnone _
    · exact Books.session.bind fun s _ => .fail (L.tooDeep _ _)
    · rename_i hlevels
      cases hlevels
    · exact Books.session.bind fun s _ => .fail (L.notASchema _ _)
  | succ levels ih =>
    intro v top branch hv hroot
    unfold compileWithin
    split
    · exact hnone _
    · rename_i hlevels
      cases hlevels
    · rename_i levels' schema hlevels
      cases hlevels
      have hinner : InnerBooks L D (fun v branch => compileWithin env refer false branch levels v) :=
        ⟨fun hv branch => ih _ false branch hv (by simp),
          fun v branch => compileWithin_twice rules.twice levels v false branch⟩
      refine Books.nested (Books.liftBind fun key _ => Books.session.bind fun s hname => ?_)
      refine Books.ite (fun _ => rules.compileFields_enters hv hinner hroot) fun hc => ?_
      -- a schema compiled under a name is not cached
      exact absurd hc (by simp [hname])
    · exact Books.session.bind fun s _ => .fail (L.notASchema _ _)

/-- **The definition of a schema ends in one of the failures, or the books are right with the marks
of the compiled tree.** -/
theorem compileNamedWith_ends {v : Value} (hv : D v) (hroot : RootEnters L env refer v)
    (hstart : L.booked ∅ []) {p q : Progress} (hp : EscapesOwn p.caches.patterns)
    {result : Except Failure (Expression × Session)}
    (hrun : (compileNamedWith env refer L.owner v).run p = (result, q)) :
    (∃ f, result = .error (failureOf L.owner f) ∧ L.fails f) ∨
      ∃ e s, result = .ok (e, s) ∧ L.booked e.marks s.dependencies := by
  have hopen : L.At (∅ ∪ ∅) { p with session := { name := some L.owner } } :=
    ⟨⟨rfl, hp⟩, by rwa [Set.union_empty]⟩
  have hends := rules.compileWithin_enters (levelsFor env 0 v) v true false hv (fun _ => hroot) ∅ _
    hopen
  have hsession : (compileNamedWith env refer L.owner v).run p = (inSession
      { name := some L.owner } (compileSchemaWith env refer v true false)
      (failureOf L.owner)).run p := rfl
  have hschema : (compileSchemaWith env refer v true false).run
        { p with session := { name := some L.owner } } =
      (compileWithin env refer true false (levelsFor env 0 v) v).run
        { p with session := { name := some L.owner } } := rfl
  rw [hsession, run_inSession, hschema] at hrun
  generalize (compileWithin env refer true false (levelsFor env 0 v) v).run
    { p with session := { name := some L.owner } } = r at hends hrun
  cases hends with
  | error hf =>
    cases hrun
    exact Or.inl ⟨_, rfl, hf⟩
  | ok hplain hq =>
    cases hrun
    refine Or.inr ⟨_, _, rfl, ?_⟩
    simpa using hq.booked

end LedgerRules

end SchemaForge.Compile
