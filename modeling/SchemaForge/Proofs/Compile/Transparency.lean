import SchemaForge.Proofs.Compile.CacheKey
import SchemaForge.Proofs.Compile.Deferral
import SchemaForge.Proofs.Compile.History

/-!
# When the cache of schemas does not show

A call in a session without a name may be answered from the cache. Here every such run is set beside
one that never looks anything up. They can part in two ways only. The key of a schema does not show
the order of its fields, so the cache may answer for another schema with the same key. And a schema
that is found is not compiled, so that a run may get by with fewer levels than it has schemas inside
each other.

Where one key stands for one schema and the levels are enough, neither happens, and a call is
answered as if it were the first.
-/

namespace SchemaForge

/-! ## Views -/

namespace Environment

/-- An environment itself, or its view for requests or for responses. -/
def IsView (base env : Environment) : Prop := env = base ∨ ∃ option, base.view option = .ok env

/-- The environment with other values for the options that a view may set. -/
def withOptions (base : Environment) (mode : ObjectMode) (useDescribe includeDescriptions : Value) :
    Environment :=
  { base with context := { base.context with mode, useDescribe, includeDescriptions } }

/-- **Views differ in nothing but the options that they may set.** -/
theorem IsView.eq_withOptions {schemas : Fields} {ctx : Context} {graph : Reference.Graph}
    {base env : Environment} (hbase : make schemas ctx graph = .ok base) (h : base.IsView env) :
    ∃ mode useDescribe includeDescriptions,
      env = base.withOptions mode useDescribe includeDescriptions := by
  rcases h with rfl | ⟨option, h⟩
  · exact ⟨env.context.mode, env.context.useDescribe, env.context.includeDescriptions, rfl⟩
  · obtain ⟨names, hnames, hbase⟩ := Outcome.bind_eq_ok.mp hbase
    cases hbase
    obtain ⟨ctx', hctx', h⟩ := Outcome.bind_eq_ok.mp h
    cases option with
    | other v => cases hctx'
    | overrides o =>
      cases hctx'
      obtain ⟨names', hnames', h⟩ := Outcome.bind_eq_ok.mp h
      cases h
      -- none of the options that a view sets has to do with names
      have hsame : NameTable.ofSchemas (ctx.override o) schemas = NameTable.ofSchemas ctx schemas :=
        rfl
      obtain rfl : names' = names := by
        have hboth := hnames'.symm.trans (hsame.trans hnames)
        exact Except.ok.inj hboth
      exact ⟨_, _, _, rfl⟩

end Environment

namespace Compile

open Comparison

/-- Two environments in which schemas compile to the same, and under the same keys. -/
structure SameOptions (env env' : Environment) : Prop where
  reads : ReadsAs env env'
  refer : compileReference env = compileReference env'
  default : env.context.defaultNullable = env'.context.defaultNullable
  key : ∀ schema top branch, cacheKey env schema top branch = cacheKey env' schema top branch

theorem SameOptions.refl (env : Environment) : SameOptions env env :=
  ⟨.refl env, rfl, rfl, fun _ _ _ => rfl⟩

theorem SameOptions.symm {env env' : Environment} (h : SameOptions env env') : SameOptions env' env where
  reads := {
    schemas := h.reads.schemas.symm
    visibility := h.reads.visibility.symm
    mode := h.reads.mode.symm
    emptyObject := h.reads.emptyObject.symm
    dateTime := h.reads.dateTime.symm
    describes := h.reads.describes.symm
    comments := h.reads.comments.symm }
  refer := h.refer.symm
  default := h.default.symm
  key := fun schema top branch => (h.key schema top branch).symm

theorem SameOptions.trans {env env' env'' : Environment} (h : SameOptions env env')
    (h' : SameOptions env' env'') : SameOptions env env'' where
  reads := {
    schemas := h.reads.schemas.trans h'.reads.schemas
    visibility := h.reads.visibility.trans h'.reads.visibility
    mode := h.reads.mode.trans h'.reads.mode
    emptyObject := h.reads.emptyObject.trans h'.reads.emptyObject
    dateTime := h.reads.dateTime.trans h'.reads.dateTime
    describes := h.reads.describes.trans h'.reads.describes
    comments := h.reads.comments.trans h'.reads.comments }
  refer := h.refer.trans h'.refer
  default := h.default.trans h'.default
  key := fun schema top branch => (h.key schema top branch).trans (h'.key schema top branch)

/-- Views that gave one schema each the same key differ at most in whether they describe. -/
theorem sameOptions_of_sameKey {base env env' : Environment} {mode mode' : ObjectMode}
    {describe describe' descriptions descriptions' : Value} {schema schema' : Fields}
    {top top' branch branch' : Bool}
    (henv : env = base.withOptions mode describe descriptions)
    (henv' : env' = base.withOptions mode' describe' descriptions')
    (h : SameKey env env' schema schema' top top' branch branch')
    (hdescribes : env.describes = env'.describes) (hcomments : env.comments = env'.comments) :
    SameOptions env env' := by
  have hkey : ∀ schema top branch,
      cacheKey env schema top branch = cacheKey env' schema top branch := by
    intro schema top branch
    rw [cacheKey_eq, cacheKey_eq, keyFields, keyFields, h.visibility, h.mode]
    simp only [Json.write, Json.writeValues, h.describe, h.descriptions]
  subst henv henv'
  exact {
    reads := ⟨rfl, rfl, h.mode, rfl, rfl, hdescribes, hcomments⟩
    refer := rfl
    default := rfl
    key := hkey }

/-! ## Compiling without the cache -/

/-- A schema object, never looked up. It has to have a key all the same. -/
def compileUncached (env : Environment) (inner : Inner) (schema : Fields) (top branch : Bool) :
    Compile Expression := do
  discard (cacheKey env schema top branch)
  compileFields env (compileReference env) inner schema top branch

/-- Compiles a schema with a number of levels left and without the cache. -/
def compilePlain (env : Environment) (top branch : Bool) : Nat → Value → Compile Expression
  | _, .bool b => return zod (if b then "unknown" else "never") []
  | 0, .object _ => do fail (.tooDeep env.context.maxDepth (← session).name)
  | levels + 1, .object schema =>
    nested (compileUncached env (fun v branch => compilePlain env false branch levels v) schema top
      branch)
  | _, v => do fail (.notASchema v.kindName (← session).name)

/-- How the schemas inside another are compiled without the cache. -/
def plainWithin (env : Environment) (levels : Nat) : Inner :=
  fun v branch => compilePlain env false branch levels v

/-- A failure for want of levels. -/
def IsTooDeep (f : Failure) : Prop := ∃ limit owner, f = .tooDeep limit owner

/-- Progress that a run without the cache may start from. -/
structure Unnamed (p : Progress) : Prop where
  name : p.session.name = none
  patterns : EscapesOwn p.caches.patterns

/-- What a schema object compiles to without the cache, if the levels are enough. -/
def CompilesTo (env : Environment) (schema : Fields) (top branch : Bool) (e : Expression) : Prop :=
  ∀ levels p, Unnamed p →
    (∃ q, Unnamed q ∧ (compileFields env (compileReference env) (plainWithin env levels) schema top
      branch).run p = (.ok e, q)) ∨
    ∃ f q, IsTooDeep f ∧ (compileFields env (compileReference env) (plainWithin env levels) schema
      top branch).run p = (.error f, q)

/-! ## Keys that stand for one schema -/

/-- A call compiles a value on its way. -/
def Call.Meets (c : Call) (w : Value) : Prop :=
  ∃ v top branch, c.task = .schema v top branch ∧ Inside c.env v w

/-- Of the schemas that some calls look up, two with one key are one schema, and the calls agree on
whether they describe. -/
def KeysTell (calls : List Call) : Prop :=
  ∀ c ∈ calls, ∀ c' ∈ calls, ∀ schema schema' top top' branch branch' key,
    c.Meets (.object schema) → c'.Meets (.object schema') →
    cacheKey c.env schema top branch = .ok key → cacheKey c'.env schema' top' branch' = .ok key →
    namesUncached key = false →
    schema = schema' ∧ c.env.describes = c'.env.describes ∧ c.env.comments = c'.env.comments

/-- A compiled schema that every one of the calls may take from the cache. -/
def Sound (calls : List Call) (key : String) (e : Expression) : Prop :=
  ∀ c ∈ calls, ∀ schema top branch, c.Meets (.object schema) →
    cacheKey c.env schema top branch = .ok key → CompilesTo c.env schema top branch e

/-! ## Runs with and without the cache -/

variable {calls : List Call} {lenient : Prop} {env env' : Environment} {schema : Fields}
  {top branch : Bool} {key : String} {inner inner' : Inner}

/-- What a run with the cache has in common with one without it. -/
structure Beside (calls : List Call) (p q : Progress) : Prop where
  left : Unnamed p
  right : Unnamed q
  schemas : p.caches.schemas.All (Sound calls)

/-- Runs with the cache are compared with runs without it. The second may want levels that the first
does not; the first too, if told so. -/
def besidePlain (calls : List Call) (lenient : Prop) : Comparison where
  linked := Beside calls
  excusedLeft f := lenient ∧ IsTooDeep f
  excusedRight := IsTooDeep

theorem besidePlain_steady : (besidePlain calls lenient).Steady := by
  refine .of_kept (fun hpq => hpq.left.name.trans hpq.right.name.symm)
    (fun hpq => ⟨hpq.left.patterns, hpq.right.patterns⟩) fun hpq hp hq => ?_
  refine ⟨⟨hp.name.trans hpq.left.name, hp.patterns⟩, ⟨hq.name.trans hpq.right.name, hq.patterns⟩, ?_⟩
  rw [hp.schemas]
  exact hpq.schemas

theorem compileFields_besidePlain (henv : SameOptions env env')
    (h : ∀ fields, visibleFields env schema = .ok fields →
      InnerAlike (besidePlain calls lenient) True (PartOf fields) inner inner') :
    (besidePlain calls lenient).Alike Eq
      (compileFields env (compileReference env) inner schema top branch)
      (compileFields env' (compileReference env') inner' schema top branch) := by
  have hrefer : ReferAlike (besidePlain calls lenient) True (compileReference env)
      (compileReference env') := by
    rw [← henv.refer]
    exact compileReference_alike besidePlain_steady
  refine (compileFields_alike besidePlain_steady henv.reads hrefer (fun _ => ?_) h).mono
    fun e e' he => he.eq trivial
  rw [henv.default]

/-! ## Schema objects -/

/-- The calls go through views of one environment. -/
def ThroughViews (base : Environment) (calls : List Call) : Prop :=
  ∀ c ∈ calls, ∃ mode useDescribe includeDescriptions,
    c.env = base.withOptions mode useDescribe includeDescriptions

variable {base : Environment}

/-- The calls that may find a schema under one key all read alike. -/
theorem KeysTell.sameOptions (hkeys : KeysTell calls) (hviews : ThroughViews base calls)
    {c c' : Call} (hc : c ∈ calls) (hc' : c' ∈ calls) {schema' : Fields} {top' branch' : Bool}
    (hmeets : c.Meets (.object schema)) (hmeets' : c'.Meets (.object schema'))
    (hkey : cacheKey c.env schema top branch = .ok key)
    (hkey' : cacheKey c'.env schema' top' branch' = .ok key) (huncached : namesUncached key = false) :
    schema = schema' ∧ top = top' ∧ branch = branch' ∧ SameOptions c.env c'.env := by
  obtain ⟨hschema, hdescribes, hcomments⟩ :=
    hkeys c hc c' hc' schema schema' top top' branch branch' key hmeets hmeets' hkey hkey' huncached
  have hsame := sameKey_of_cacheKey hkey hkey'
  obtain ⟨mode, describe, descriptions, henv⟩ := hviews c hc
  obtain ⟨mode', describe', descriptions', henv'⟩ := hviews c' hc'
  exact ⟨hschema, hsame.top, hsame.branch,
    sameOptions_of_sameKey henv henv' hsame hdescribes hcomments⟩

/-- A way to compile schemas inside a schema object is as good as all ways without the cache. -/
def InnerSound (calls : List Call) (env : Environment) (schema : Fields) (inner : Inner) : Prop :=
  ∀ c ∈ calls, SameOptions env c.env → c.Meets (.object schema) → ∀ levels fields,
    visibleFields env schema = .ok fields →
    InnerAlike (besidePlain calls True) True (PartOf fields) inner (plainWithin c.env levels)

/-- **What is compiled under a key is right for all calls that may find it there.** -/
theorem sound_of_run (hkeys : KeysTell calls) (hviews : ThroughViews base calls) {c : Call}
    (hc : c ∈ calls) (henv : SameOptions env c.env) (hmeets : c.Meets (.object schema))
    (hinner : InnerSound calls env schema inner) (hkey : cacheKey env schema top branch = .ok key)
    (huncached : namesUncached key = false) {p p' : Progress} {e : Expression} (hp : Unnamed p)
    (hschemas : p.caches.schemas.All (Sound calls))
    (hrun : (compileFields env (compileReference env) inner schema top branch).run p = (.ok e, p')) :
    Sound calls key e := by
  intro c' hc' schema' top' branch' hmeets' hkey'
  rw [henv.key] at hkey
  obtain ⟨rfl, rfl, rfl, hsame⟩ :=
    hkeys.sameOptions hviews hc hc' hmeets hmeets' hkey hkey' huncached
  have henv' := henv.trans hsame
  intro levels q hq
  have hfields : (besidePlain calls True).Alike Eq
      (compileFields env (compileReference env) inner schema top branch)
      (compileFields c'.env (compileReference c'.env) (plainWithin c'.env levels) schema top branch) :=
    compileFields_besidePlain henv' (hinner c' hc' henv' hmeets' levels)
  have hagree := hfields p q ⟨hp, hq, hschemas⟩
  rw [hrun] at hagree
  generalize (compileFields c'.env _ _ _ _ _).run q = r at hagree ⊢
  cases hagree with
  | ok he hlinked =>
    subst he
    exact Or.inl ⟨_, hlinked.right, rfl⟩
  | right hexcused => exact Or.inr ⟨_, _, hexcused, rfl⟩

/-- A computation that is looked up, beside one that is made: what is found has to be what the other
one gives, and what is filed has to be sound. -/
theorem cached_besidePlain {act act' : Compile Expression}
    (hact : (besidePlain calls lenient).Alike Eq act act')
    (hfound : ∀ {e q}, Sound calls key e → Unnamed q →
      (∃ q', Unnamed q' ∧ act'.run q = (.ok e, q')) ∨
        ∃ f q', IsTooDeep f ∧ act'.run q = (.error f, q'))
    (hfiled : ∀ {e p p'}, Unnamed p → p.caches.schemas.All (Sound calls) →
      act.run p = (.ok e, p') → Sound calls key e) :
    (besidePlain calls lenient).Alike Eq (cached key act) act' := by
  intro p q hpq
  rcases hfind : p.caches.schemas.find key with ⟨found, schemas⟩
  obtain ⟨hall, hentry⟩ := hpq.schemas.find hfind
  cases found with
  | some e =>
    rw [run_cached_hit hfind]
    rcases hfound (hentry e rfl) hpq.right with ⟨q', hq', hrun⟩ | ⟨f, q', hf, hrun⟩
    · rw [hrun]
      exact .ok rfl ⟨⟨hpq.left.name, hpq.left.patterns⟩, hq', hall⟩
    · rw [hrun]
      exact .right hf
  | none =>
    have hagree := hact p q hpq
    rcases hp : act.run p with ⟨a, p'⟩
    rw [hp] at hagree
    generalize act'.run q = r at hagree ⊢
    cases hagree with
    | ok he hlinked =>
      rw [run_cached_ok hfind hp]
      exact .ok he ⟨⟨hlinked.left.name, hlinked.left.patterns⟩, hlinked.right,
        hlinked.schemas.set (hfiled hpq.left hpq.schemas hp)⟩
    | error hlinked =>
      rw [run_cached_error hfind hp]
      exact .error hlinked
    | left hexcused =>
      rw [run_cached_error hfind hp]
      exact .left hexcused
    | right hexcused => exact .right hexcused

/-- **A schema object, looked up or compiled, beside one that is compiled.** -/
theorem compileCached_besidePlain (hkeys : KeysTell calls) (hviews : ThroughViews base calls)
    {c : Call} (hc : c ∈ calls) (henv : SameOptions env c.env) (hmeets : c.Meets (.object schema))
    (hinner : InnerSound calls env schema inner) {levels : Nat}
    (h : ∀ fields, visibleFields env schema = .ok fields →
      InnerAlike (besidePlain calls lenient) True (PartOf fields) inner (plainWithin c.env levels)) :
    (besidePlain calls lenient).Alike Eq
      (compileCached env (compileReference env) inner schema top branch)
      (compileUncached c.env (plainWithin c.env levels) schema top branch) := by
  have hfields : (besidePlain calls lenient).Alike Eq
      (compileFields env (compileReference env) inner schema top branch)
      (compileFields c.env (compileReference c.env) (plainWithin c.env levels) schema top branch) :=
    compileFields_besidePlain henv h
  have hplain : ∀ q, (compileUncached c.env (plainWithin c.env levels) schema top branch).run q =
      match cacheKey env schema top branch with
      | .ok _ => (compileFields c.env (compileReference c.env) (plainWithin c.env levels) schema top
          branch).run q
      | .error f => (.error (.fault f), q) := by
    intro q
    unfold compileUncached
    rw [← henv.key]
    cases cacheKey env schema top branch <;> rfl
  intro p q hpq
  rw [hplain]
  cases hkey : cacheKey env schema top branch with
  | error f =>
    rw [run_compileCached_error hkey]
    exact .error hpq
  | ok key =>
    dsimp only
    cases huncached : namesUncached key with
    | true =>
      rw [run_compileCached_skip hkey (by rw [huncached, Bool.or_true])]
      exact hfields p q hpq
    | false =>
      rw [run_compileCached_look hkey (by rw [huncached, hpq.left.name]; rfl)]
      refine cached_besidePlain hfields (fun hsound hq => ?_) (fun hp hschemas hrun => ?_) p q hpq
      · exact hsound c hc schema top branch hmeets ((henv.key _ _ _).symm.trans hkey) levels _ hq
      · exact sound_of_run hkeys hviews hc henv hmeets hinner hkey huncached hp hschemas hrun

/-! ## Schemas -/

theorem Call.Meets.part {c : Call} {fields : Fields} {w : Value} (h : c.Meets (.object schema))
    (hvisible : visibleFields c.env schema = .ok fields) (hpart : PartOf fields w) : c.Meets w := by
  obtain ⟨v, top, branch, htask, hinside⟩ := h
  exact ⟨v, top, branch, htask, .part hinside hvisible hpart⟩

/-- Ways to compile schemas that give the same for all parts of a schema. -/
theorem innerAlike_of_eq {C : Comparison} {fields : Fields}
    (h : ∀ w branch, PartOf fields w → C.Alike Eq (inner w branch) (inner' w branch)) :
    InnerAlike C True (PartOf fields) inner inner' := by
  intro w branch hw
  refine (h w branch hw).mono ?_
  rintro e _ rfl
  exact ⟨fun _ => rfl, fun _ => rfl⟩

/-- What a value that is no object compiles to. -/
def compileLeaf : Value → Compile Expression
  | .bool b => return zod (if b then "unknown" else "never") []
  | v => do fail (.notASchema v.kindName (← session).name)

/-- A value that is no object compiles to the same on every level. -/
theorem compileWithin_leaf {refer : Refer} {v : Value} (hv : ∀ schema, v ≠ .object schema)
    (levels : Nat) : compileWithin env refer top branch levels v = compileLeaf v := by
  cases v with
  | object schema => exact absurd rfl (hv schema)
  | list vs => cases levels <;> rfl
  | scalar s => cases levels <;> cases s <;> rfl

theorem compilePlain_leaf {v : Value} (hv : ∀ schema, v ≠ .object schema) (levels : Nat) :
    compilePlain env top branch levels v = compileLeaf v := by
  cases v with
  | object schema => exact absurd rfl (hv schema)
  | list vs => cases levels <;> rfl
  | scalar s => cases levels <;> cases s <;> rfl

theorem compileLeaf_alike {C : Comparison} (hC : C.Steady) (v : Value) :
    C.Alike Eq (compileLeaf v) (compileLeaf v) := by
  unfold compileLeaf
  split
  · exact .pure rfl
  · refine hC.session.bind fun s s' hs => ?_
    rw [hs]
    exact .fail _

/-- **By induction on the levels left: a schema, with the cache, compiles to what it does without
it**, unless one of the two runs out of levels. -/
theorem compileWithin_besidePlain (hkeys : KeysTell calls) (hviews : ThroughViews base calls) :
    ∀ (levels : Nat) {lenient : Prop} {levels' : Nat}, levels = levels' ∨ lenient →
      ∀ c ∈ calls, SameOptions env c.env → ∀ (v : Value) (top branch : Bool), c.Meets v →
      (besidePlain calls lenient).Alike Eq
        (compileWithin env (compileReference env) top branch levels v)
        (compilePlain c.env top branch levels' v) := by
  intro levels
  induction levels with
  | zero =>
    intro lenient levels' hlevels c hc henv v top branch hmeets
    by_cases hv : ∃ schema, v = .object schema
    · obtain ⟨schema, rfl⟩ := hv
      cases levels' with
      | zero => exact fun p q _ => .right ⟨_, _, rfl⟩
      | succ levels' =>
        have hlenient : lenient := hlevels.resolve_left (by omega)
        exact fun p q _ => .left ⟨hlenient, _, _, rfl⟩
    · replace hv := not_exists.mp hv
      rw [compileWithin_leaf hv, compilePlain_leaf hv]
      exact compileLeaf_alike besidePlain_steady v
  | succ levels ih =>
    intro lenient levels' hlevels c hc henv v top branch hmeets
    by_cases hv : ∃ schema, v = .object schema
    · obtain ⟨schema, rfl⟩ := hv
      cases levels' with
      | zero => exact fun p q _ => .right ⟨_, _, rfl⟩
      | succ levels' =>
        -- what is inside is compiled alike in every view that reads the same and at every depth
        have hinner : ∀ {lenient : Prop} {levels' : Nat}, levels = levels' ∨ lenient →
            ∀ c ∈ calls, SameOptions env c.env → c.Meets (.object schema) → ∀ fields,
            visibleFields env schema = .ok fields →
            InnerAlike (besidePlain calls lenient) True (PartOf fields)
              (within env (compileReference env) levels) (plainWithin c.env levels') := by
          intro lenient levels' hlevels c hc henv hmeets fields hfields
          rw [← visibleFields_congr henv.reads.visibility] at hfields
          exact innerAlike_of_eq fun w branch hw =>
            ih hlevels c hc henv w false branch (hmeets.part hfields hw)
        refine besidePlain_steady.nested (compileCached_besidePlain hkeys hviews hc henv hmeets ?_ ?_)
        · exact fun c hc henv hmeets levels' => hinner (Or.inr trivial) c hc henv hmeets
        · exact hinner (hlevels.imp_left Nat.succ.inj) c hc henv hmeets
    · replace hv := not_exists.mp hv
      rw [compileWithin_leaf hv, compilePlain_leaf hv]
      exact compileLeaf_alike besidePlain_steady v

/-! ## Caches stay sound -/

/-- Caches with the same schemas, all of them right for the calls. -/
def soundly (calls : List Call) : Comparison :=
  sharing (· = none) BothOwn fun key e e' => e = e' ∧ Sound calls key e

theorem all_of_linked {κ ν : Type} {Q : κ → ν → Prop} {c c' : Recency κ ν}
    (h : c.Linked (fun k v v' => v = v' ∧ Q k v) c') : c.All Q := by
  intro e he
  obtain ⟨e', -, -, -, hQ⟩ := Outcome.exists_right_of_mem h.entries he
  exact hQ

theorem linked_of_all {κ ν : Type} {Q : κ → ν → Prop} {c : Recency κ ν} (h : c.All Q) :
    c.Linked (fun k v v' => v = v' ∧ Q k v) c := by
  refine ⟨rfl, ?_⟩
  rw [List.forall₂_same]
  exact fun e he => ⟨rfl, rfl, h e he⟩

/-- **Whether it succeeds or fails, a call leaves the cache sound.** -/
theorem compileWithin_soundly (hkeys : KeysTell calls) (hviews : ThroughViews base calls) {c : Call}
    (hc : c ∈ calls) (levels : Nat) (v : Value) (top branch : Bool) (hmeets : c.Meets v) :
    (soundly calls).Alike (SchemaMatched True top branch v)
      (compileWithin c.env (compileReference c.env) top branch levels v)
      (compileWithin c.env (compileReference c.env) top branch levels v) := by
  refine compileWithin_alike sharing_own_steady rfl (fun schema fields w hschema => hschema.part)
    (fun levels schema top branch hschema hinner => ?_) levels v top branch hmeets
  refine compileCached_sharing sharing_own_steady (.refl c.env)
    (compileReference_alike sharing_own_steady) (fun _ => rfl) hinner rfl ?_ ?_
  · rintro key - - e _ ⟨rfl, -⟩
    exact ⟨fun _ => rfl, fun _ => rfl⟩
  · intro key hkey huncached p q p' e e' hpq hname hrun he
    refine ⟨he.eq trivial, ?_⟩
    refine sound_of_run hkeys hviews hc (.refl c.env) hschema ?_ hkey huncached
      ⟨hname, hpq.patterns.1⟩ (all_of_linked (hpq.schemas hname)) hrun
    intro c' hc' henv hmeets' levels' fields hfields
    rw [← visibleFields_congr henv.reads.visibility] at hfields
    exact innerAlike_of_eq fun w branch hw => compileWithin_besidePlain hkeys hviews levels
      (Or.inr trivial) c' hc' henv w false branch (hmeets'.part hfields hw)

/-! ## Calls one after another -/

namespace Call

variable {c : Call} {v : Value} {caches : Caches}

/-- What a call finds. -/
def start (c : Call) (caches : Caches) : Progress :=
  { session := c.session, caches, log := c.log }

/-- A call for a schema in a session without a name, through a view of an environment. -/
structure Inline (base : Environment) (c : Call) : Prop where
  view : base.IsView c.env
  unnamed : c.session.name = none
  inline : ∃ v top branch, c.task = .schema v top branch

/-- A call that, without the cache, does not run out of levels. -/
def Fits (c : Call) (caches : Caches) : Prop :=
  ∀ v top branch f q, c.task = .schema v top branch →
    (compilePlain c.env top branch (levelsFor c.env c.session.depth v) v).run (c.start caches) =
      (.error f, q) → ¬ IsTooDeep f

theorem run_schema (h : c.task = .schema v top branch) :
    (c.run caches).1.map Prod.fst =
        ((compileSchema c.env v top branch).run (c.start caches)).1 ∧
      (c.run caches).2 = ((compileSchema c.env v top branch).run (c.start caches)).2 := by
  have hcompile : c.run caches = (compileSchema c.env v top branch >>= fun e =>
      Compile.session >>= fun s => pure (e, s)).run (c.start caches) := by
    unfold Call.run Call.compile
    rw [h]
    rfl
  rw [hcompile]
  rcases hrun : (compileSchema c.env v top branch).run (c.start caches) with ⟨result, q⟩
  cases result with
  | error f =>
    rw [run_bind_error hrun]
    exact ⟨rfl, rfl⟩
  | ok e =>
    rw [run_bind_ok hrun]
    exact ⟨rfl, rfl⟩

/-- Whatever it does, a call leaves a sound cache sound. -/
theorem all_sound (hkeys : KeysTell calls) (hviews : ThroughViews base calls) (hc : c ∈ calls)
    (hname : c.session.name = none) (htask : c.task = .schema v top branch)
    (hown : EscapesOwn caches.patterns) (hsound : caches.schemas.All (Sound calls)) :
    (c.run caches).2.caches.schemas.All (Sound calls) := by
  have hstart : Sharing (· = none) BothOwn (fun key e e' => e = e' ∧ Sound calls key e)
      (c.start caches) (c.start caches) :=
    ⟨rfl, hname, ⟨hown, hown⟩, fun _ => linked_of_all hsound⟩
  have hagree := compileWithin_soundly hkeys hviews hc (levelsFor c.env c.session.depth v) v top
    branch ⟨v, top, branch, htask, .self⟩ _ _ hstart
  obtain ⟨-, hleft⟩ := paired_of_sharing hagree
  rw [(run_schema htask).2]
  exact all_of_linked (hleft.schemas hleft.name)

/-- **From a sound cache a call is answered as it is without the cache.** -/
theorem run_eq_plain (hkeys : KeysTell calls) (hviews : ThroughViews base calls) (hc : c ∈ calls)
    (hname : c.session.name = none) (htask : c.task = .schema v top branch)
    {caches' : Caches} (hown : EscapesOwn caches.patterns) (hown' : EscapesOwn caches'.patterns)
    (hsound : caches.schemas.All (Sound calls)) (hfits : c.Fits caches') :
    (c.run caches).1.map Prod.fst =
      ((compilePlain c.env top branch (levelsFor c.env c.session.depth v) v).run
        (c.start caches')).1 := by
  have halike : (besidePlain calls False).Alike Eq
      (compileWithin c.env (compileReference c.env) top branch (levelsFor c.env c.session.depth v) v)
      (compilePlain c.env top branch (levelsFor c.env c.session.depth v) v) :=
    compileWithin_besidePlain hkeys hviews _ (Or.inl rfl) c hc (.refl c.env) v top branch
      ⟨v, top, branch, htask, .self⟩
  have hagree := halike (c.start caches) (c.start caches') ⟨⟨hname, hown⟩, ⟨hname, hown'⟩, hsound⟩
  have hdeep := hfits v top branch
  have hrun : (compileSchema c.env v top branch).run (c.start caches) =
      (compileWithin c.env (compileReference c.env) top branch (levelsFor c.env c.session.depth v)
        v).run (c.start caches) := run_compileSchema _
  rw [(run_schema htask).1, hrun]
  generalize (compilePlain c.env top branch (levelsFor c.env c.session.depth v) v).run
    (c.start caches') = plain at hagree hdeep ⊢
  generalize (compileWithin c.env (compileReference c.env) top branch
    (levelsFor c.env c.session.depth v) v).run (c.start caches) = found at hagree
  cases hagree with
  | ok he _ => rw [he]
  | error _ => rfl
  | left hexcused => exact absurd hexcused.1 id
  | right hexcused => exact absurd hexcused (hdeep _ _ htask rfl)

end Call

/-- Calls leave a sound cache sound. -/
theorem all_sound_after (hkeys : KeysTell calls) (hviews : ThroughViews base calls) :
    ∀ (history : List Call) {caches : Caches},
      (∀ c ∈ history, c ∈ calls ∧ c.session.name = none ∧ ∃ v top branch, c.task = .schema v top branch) →
      EscapesOwn caches.patterns → caches.schemas.All (Sound calls) →
      (after caches history).schemas.All (Sound calls) := by
  intro history
  induction history with
  | nil => exact fun _ _ hsound => hsound
  | cons c history ih =>
    intro caches hcalls hown hsound
    obtain ⟨hc, hname, v, top, branch, htask⟩ := hcalls c List.mem_cons_self
    exact ih (fun d hd => hcalls d (List.mem_cons_of_mem _ hd)) (c.escapesOwn hown)
      (c.all_sound hkeys hviews hc hname htask hown hsound)

/--
**Where keys tell schemas apart and the levels are enough, the cache does not show.** A generator is
asked for schemas in sessions without a name, through itself or its views. If two of the schemas that
are looked up on the way never share a key, then whatever was asked before, and whether it failed or
not, a call that keeps within the limit on depth gives the expression or the failure that it gives
as the first.
-/
theorem schema_cache_transparent {schemas : Fields} {ctx : Context} {graph : Reference.Graph}
    {base : Environment} (hbase : Environment.make schemas ctx graph = .ok base)
    (calls : List Call) (c : Call) (hinline : ∀ d ∈ c :: calls, d.Inline base)
    (hkeys : KeysTell (c :: calls)) (hfits : c.Fits base.caches) :
    (c.run (after base.caches calls)).1.map Prod.fst = (c.run base.caches).1.map Prod.fst := by
  have hviews : ThroughViews base (c :: calls) := fun d hd => (hinline d hd).view.eq_withOptions hbase
  have hstart := escapesOwn_start base
  have hempty : base.caches.schemas.All (Sound (c :: calls)) := Recency.all_empty _
  have hafter := all_sound_after hkeys hviews calls (fun d hd =>
    ⟨List.mem_cons_of_mem _ hd, (hinline d (List.mem_cons_of_mem _ hd)).unnamed,
      (hinline d (List.mem_cons_of_mem _ hd)).inline⟩) hstart hempty
  have hc : c ∈ c :: calls := List.mem_cons_self
  obtain ⟨v, top, branch, htask⟩ := (hinline c hc).inline
  have hname := (hinline c hc).unnamed
  calc (c.run (after base.caches calls)).1.map Prod.fst
      = ((compilePlain c.env top branch (levelsFor c.env c.session.depth v) v).run
          (c.start base.caches)).1 :=
        c.run_eq_plain hkeys hviews hc hname htask (escapesOwn_after calls hstart) hstart hafter hfits
    _ = (c.run base.caches).1.map Prod.fst :=
        (c.run_eq_plain hkeys hviews hc hname htask hstart hstart hempty hfits).symm

/-! ## One schema asked for twice, and two orders of patterns -/

/-- The call for a schema that stands for itself. -/
def Call.ofSchema (env : Environment) (schema : Fields) : Call :=
  { env, task := .schema (.object schema) false false }

def stringSchema : Fields := [(.text "type", .text "string")]

theorem not_partOf_stringSchema (w : Value) : ¬ PartOf stringSchema w := by
  intro h
  have honly : OnlyAllOf stringSchema := by decide
  obtain ⟨value, branches, b, held, -⟩ := honly.part h
  cases held

theorem eq_of_inside_stringSchema {w : Value} (h : Inside env (.object stringSchema) w) :
    w = .object stringSchema := by
  induction h with
  | self => rfl
  | part inside visible part ih =>
    cases ih
    cases visible
    exact absurd part (not_partOf_stringSchema _)

theorem keysTell_stringSchema (env : Environment) :
    KeysTell [Call.ofSchema env stringSchema, Call.ofSchema env stringSchema] := by
  have hmeets : ∀ c ∈ [Call.ofSchema env stringSchema, Call.ofSchema env stringSchema],
      c.env = env ∧ ∀ schema, c.Meets (.object schema) → schema = stringSchema := by
    intro c hc
    obtain rfl : c = Call.ofSchema env stringSchema := by simpa using hc
    refine ⟨rfl, ?_⟩
    rintro schema ⟨v, top, branch, htask, hinside⟩
    cases htask
    simpa using eq_of_inside_stringSchema hinside
  intro c hc c' hc' schema schema' top top' branch branch' key hschema hschema' _ _ _
  obtain ⟨henv, heq⟩ := hmeets c hc
  obtain ⟨henv', heq'⟩ := hmeets c' hc'
  rw [heq schema hschema, heq' schema' hschema', henv, henv']
  exact ⟨rfl, rfl, rfl⟩

theorem schema_cache_transparent_twice :
    ∃ env, Environment.ofSchemas [] = .ok env ∧
      (after env.caches [Call.ofSchema env stringSchema]).schemas.size = 1 ∧
      ((Call.ofSchema env stringSchema).run
          (after env.caches [Call.ofSchema env stringSchema])).1.map Prod.fst =
        ((Call.ofSchema env stringSchema).run env.caches).1.map Prod.fst := by
  obtain ⟨env, henv, hsize, hok⟩ : ∃ env, Environment.ofSchemas [] = .ok env ∧
      (after env.caches [Call.ofSchema env stringSchema]).schemas.size = 1 ∧
      ((compilePlain env false false (levelsFor env 0 (.object stringSchema))
        (.object stringSchema)).run ((Call.ofSchema env stringSchema).start env.caches)).1.isOk =
        true :=
    ⟨_, rfl, by decide +kernel, by decide +kernel⟩
  obtain ⟨ctx, -, hmake⟩ := Outcome.bind_eq_ok.mp henv
  obtain ⟨graph, -, hmake⟩ := Outcome.bind_eq_ok.mp hmake
  refine ⟨env, henv, hsize, schema_cache_transparent (lift_eq_ok hmake) _ _ (fun d hd => ?_)
    (keysTell_stringSchema env) fun v top branch f q htask hrun => ?_⟩
  · obtain rfl : d = Call.ofSchema env stringSchema := by simpa using hd
    exact ⟨Or.inl rfl, rfl, _, _, _, rfl⟩
  · cases htask
    cases hok.symm.trans (congrArg (fun r => r.1.isOk) hrun)

/-- An object whose properties are known by patterns only. -/
def byPatterns (patterns : Fields) : Fields :=
  [(.text "type", .text "object"), (.text "patternProperties", .object patterns)]

/-- The first of two patterns that match counts, so their order matters; but the cache answers for
one order with what it found for the other. -/
theorem schema_cache_reorders :
    ∃ env, Environment.ofSchemas [] = .ok env ∧
      ((Call.ofSchema env (byPatterns [(.text "b", .bool true), (.text "a", .bool false)])).run
          (after env.caches [Call.ofSchema env
            (byPatterns [(.text "a", .bool false), (.text "b", .bool true)])])).1.map Prod.fst ≠
        ((Call.ofSchema env (byPatterns [(.text "b", .bool true), (.text "a", .bool false)])).run
          env.caches).1.map Prod.fst := by
  obtain ⟨env, henv, hdiffer⟩ : ∃ env, Environment.ofSchemas [] = .ok env ∧
      ((Call.ofSchema env (byPatterns [(.text "b", .bool true), (.text "a", .bool false)])).run
          (after env.caches [Call.ofSchema env (byPatterns [(.text "a", .bool false),
            (.text "b", .bool true)])])).1.toOption.map (fun r => r.1.toNode.print 0) ≠
        ((Call.ofSchema env (byPatterns [(.text "b", .bool true), (.text "a", .bool false)])).run
          env.caches).1.toOption.map fun r => r.1.toNode.print 0 :=
    ⟨_, rfl, by decide +kernel⟩
  refine ⟨env, henv, fun hsame => hdiffer ?_⟩
  have hprinted : ∀ r : Except Failure (Expression × Session),
      (r.toOption.map fun r => r.1.toNode.print 0) =
        (r.map Prod.fst).toOption.map fun e => e.toNode.print 0 := by
    intro r
    cases r <;> rfl
  rw [hprinted, hprinted, hsame]

end Compile

end SchemaForge
