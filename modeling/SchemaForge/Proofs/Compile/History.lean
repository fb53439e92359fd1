import SchemaForge.Proofs.Compile.CacheKey
import SchemaForge.Proofs.Compile.Caching

/-!
# Calls of the compiler, one after another

All calls of a generator work on the same caches, through its own environment or through a view for
requests or responses, and a failed call leaves behind what it did before it failed. `after` gives
the caches after some calls.

The definition of a named schema does not depend on the calls before it: compiled schemas are only
looked up in sessions without a name, and whatever was done before, a pattern is escaped as it is
from scratch.
-/

namespace SchemaForge.Compile

open Comparison

/-- What a call compiles. -/
inductive Task where
  /-- A schema that stands for itself, in the session at hand. -/
  | schema (v : Value) (top branch : Bool)
  /-- A named schema, in a session of its own. -/
  | named (name : String) (v : Value)

/-- A call of the compiler: the environment it reads, the session and the log it finds, and its
task. -/
structure Call where
  env : Environment
  session : Session := {}
  log : List LogRecord := []
  task : Task

namespace Call

/-- The computation of a call, with the session it ends in. -/
def compile (c : Call) : Compile (Expression × Session) :=
  match c.task with
  | .schema v top branch => do
    let e ← compileSchema c.env v top branch
    return (e, ← Compile.session)
  | .named name v => compileNamed c.env name v

/-- How a call ends if it finds some caches. -/
def run (c : Call) (caches : Caches) : Except Failure (Expression × Session) × Progress :=
  c.compile.run { session := c.session, caches, log := c.log }

end Call

/-- The caches after some calls, whether they succeeded or failed. -/
def after (caches : Caches) (calls : List Call) : Caches :=
  calls.foldl (fun caches c => (c.run caches).2.caches) caches

/-! ## Compiling the same from different caches -/

variable {C : Comparison} {P : Prop} {env : Environment}

theorem compileReference_alike (hC : C.Steady) :
    ReferAlike C P (compileReference env) (compileReference env) := by
  have hpure : ∀ e : Expression, C.Alike (Matched P) (pure e) (pure e) := fun e => .pure (.refl e)
  intro ref name top
  unfold compileReference
  refine hC.session.bind fun s s' hs => ?_
  rw [placeOf, placeOf, hs]
  refine Alike.ite (fun _ => .fail _) fun _ => Alike.liftBind fun resolved _ => ?_
  cases s'.name with
  | none => exact Alike.liftBind fun const _ => hpure _
  | some current =>
    refine Alike.ite (fun _ => (hC.addDependency name).bind fun _ _ _ => ?_) fun _ => ?_
    all_goals
      refine Alike.liftBind fun const _ => Alike.ite (fun _ => ?_) fun _ => hpure _
      exact Alike.ite (fun _ => Alike.liftBind fun type _ => hpure _) fun _ => hpure _

/-- Caches in which patterns have their own escapes, and the same schemas where these are used. -/
def fromCaches : Comparison := sharing (fun _ => True) BothOwn fun _ => Eq

theorem run_compileSchema {v : Value} {top branch : Bool} (p : Progress) :
    (compileSchema env v top branch).run p =
      (compileWithin env (compileReference env) top branch (levelsFor env p.session.depth v) v).run
        p := rfl

/-- A schema that is never looked up is compiled by its fields, one level deeper. -/
theorem run_compileWithin_uncached {schema : Fields} {top branch : Bool} {k : String} {levels : Nat}
    (hk : k ∈ uncachedKeywords) (hhas : schema.has k = true) {p q : Progress} {e : Expression}
    (h : (compileWithin env (compileReference env) top branch levels (.object schema)).run p =
      (.ok e, q)) :
    ∃ levels r, (compileFields env (compileReference env) (within env (compileReference env) levels)
      schema top branch).run p.deeper = (.ok e, r) ∧ q = r.shallower := by
  cases levels with
  | zero =>
    obtain ⟨s, r, -, h⟩ := run_bind_eq_ok h
    cases h
  | succ levels =>
    obtain ⟨r, h, hq⟩ := run_nested_eq_ok h
    cases hkey : cacheKey env schema top branch with
    | error f =>
      rw [run_compileCached_error hkey] at h
      cases h
    | ok key =>
      have hskip : (p.deeper.session.name.isSome || namesUncached key) = true := by
        rw [namesUncached_of_has hkey hk hhas, Bool.or_true]
      rw [run_compileCached_skip hkey hskip] at h
      exact ⟨levels, r, h, hq⟩

theorem run_compileSchema_uncached {schema : Fields} {top branch : Bool} {k : String}
    (hk : k ∈ uncachedKeywords) (hhas : schema.has k = true) {p q : Progress} {e : Expression}
    (h : (compileSchema env (.object schema) top branch).run p = (.ok e, q)) :
    ∃ levels r, (compileFields env (compileReference env) (within env (compileReference env) levels)
      schema top branch).run p.deeper = (.ok e, r) ∧ q = r.shallower :=
  run_compileWithin_uncached hk hhas ((run_compileSchema p).symm.trans h)

/-- **A schema compiles to the same from different caches.** -/
theorem compileSchema_alike (v : Value) (top branch : Bool) :
    fromCaches.Alike Eq (compileSchema env v top branch) (compileSchema env v top branch) := by
  have hcached : ∀ (levels : Nat) (schema : Fields) (top branch : Bool), True →
      (∀ fields, visibleFields env schema = .ok fields →
        InnerAlike fromCaches True (PartOf fields) (within env (compileReference env) levels)
          (within env (compileReference env) levels)) →
      fromCaches.Alike (FieldsMatched True schema top branch)
        (compileCached env (compileReference env) (within env (compileReference env) levels) schema
          top branch)
        (compileCached env (compileReference env) (within env (compileReference env) levels) schema
          top branch) := by
    intro levels schema top branch _ hinner
    refine compileCached_sharing sharing_own_steady (.refl env)
      (compileReference_alike sharing_own_steady) (fun _ => rfl) hinner rfl ?_ ?_
    · rintro key _ _ e _ rfl
      exact ⟨fun _ => rfl, fun _ => rfl⟩
    · exact fun key _ _ p q p' e e' _ _ _ he => he.eq trivial
  intro p q hpq
  rw [run_compileSchema, run_compileSchema, hpq.session]
  refine (compileWithin_alike (D := fun _ => True) sharing_own_steady rfl
    (fun _ _ _ _ _ _ => trivial) hcached _ v top branch trivial p q hpq).mono ?_
  exact fun e e' he => he.inner.2 trivial

/-- What is alike from different caches leaves patterns with their own escapes. -/
theorem escapesOwn_run {α : Type} {Q : α → α → Prop} {a : Compile α} (h : fromCaches.Alike Q a a)
    {p : Progress} (hp : EscapesOwn p.caches.patterns) : EscapesOwn (a.run p).2.caches.patterns := by
  have hself := h p p ⟨rfl, trivial, ⟨hp, hp⟩, fun _ => .refl (fun _ _ => rfl) _⟩
  exact (paired_of_sharing hself).2.patterns.1

/-- **No call leaves a pattern in the cache with a wrong escape.** -/
theorem Call.escapesOwn (c : Call) {caches : Caches} (h : EscapesOwn caches.patterns) :
    EscapesOwn (c.run caches).2.caches.patterns := by
  unfold Call.run Call.compile
  split
  · rename_i v top branch _
    refine escapesOwn_run (Q := fun _ _ => True) ?_ h
    refine (compileSchema_alike v top branch).bind fun e e' _ => ?_
    exact sharing_own_steady.session.bind fun _ _ _ => .pure trivial
  · rename_i name v _
    exact escapesOwn_run (compileSchema_alike v true false) h

/-- Caches without entries. -/
theorem escapesOwn_start (env : Environment) : EscapesOwn env.caches.patterns :=
  Recency.all_empty env.context.patternCapacity

/-- **After any calls, every pattern is kept with its own escape.** -/
theorem escapesOwn_after (calls : List Call) {caches : Caches} (h : EscapesOwn caches.patterns) :
    EscapesOwn (after caches calls).patterns := by
  induction calls generalizing caches with
  | nil => exact h
  | cons c calls ih => exact ih (c.escapesOwn h)

/-! ## Named schemas -/

/-- A definition is compiled in a session of its own, and its failures are reported as failures of
the schema. -/
theorem run_compileNamed {name : String} {v : Value} (p : Progress) :
    ((compileNamed env name v).run p).1 =
      (((compileSchema env v true false).run
          { p with session := { name := some name } }).1.mapError (failureOf name)).map
        fun e => (e, ((compileSchema env v true false).run
          { p with session := { name := some name } }).2.session) := rfl

/-- **The definition of a named schema is the same from all caches in which patterns have their own
escapes**, whatever compiled schemas they hold. -/
theorem run_compileNamed_eq {p q : Progress} (hp : EscapesOwn p.caches.patterns)
    (hq : EscapesOwn q.caches.patterns) (name : String) (v : Value) :
    ((compileNamed env name v).run p).1 = ((compileNamed env name v).run q).1 := by
  have hagree : fromCaches.Agree Eq
      ((compileSchema env v true false).run { p with session := { name := some name } })
      ((compileSchema env v true false).run { q with session := { name := some name } }) :=
    compileSchema_alike v true false _ _ ⟨rfl, trivial, ⟨hp, hq⟩, fun hname => by cases hname⟩
  obtain ⟨hresult, hlinked⟩ := paired_of_sharing hagree
  rw [run_compileNamed, run_compileNamed, hlinked.session, hresult.eq]

end SchemaForge.Compile
