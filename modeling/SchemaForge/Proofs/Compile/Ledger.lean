import SchemaForge.Proofs.Compile.Caching
import SchemaForge.Proofs.Expression.Marks

/-!
# Ledgers

While a schema is compiled under a name, its session gathers what the compiled tree is going to say.
A `Ledger` keeps the books: `booked` relates the marks of everything that was compiled so far to the
dependencies of the session, whether it went into the tree that is being built or not, and `fails`
lists the failures that may end the run.

`Books before Q after` is a judgement on a computation. Wherever the books were right with the marks
`before` entered on top of others, it ends in one of the failures or it gives a result with the
property `Q`, and the books are right with the marks `after` of that result entered instead. As in
`Same` and `Alike`, the rules follow the way computations are put together.
-/

namespace SchemaForge.Compile

/-- The books that are kept in the session of a named schema. -/
structure Ledger where
  /-- The schema that is compiled. -/
  owner : String
  /-- The marks so far go with the dependencies of the session. -/
  booked : Set Mark → List String → Prop
  /-- The properties that shapes may declare. -/
  allows : Scalar → Prop
  /-- The failures that may end a run. -/
  fails : Failure → Prop
  declares : ∀ {marks dependencies} {names : Set Mark}, booked marks dependencies →
    (∀ k ∈ names, ∃ name, k = .property name ∧ allows name) → booked (marks ∪ names) dependencies
  fault : ∀ f, fails (.fault f)
  tooDeep : ∀ limit owner, fails (.tooDeep limit owner)
  notASchema : ∀ kind owner, fails (.notASchema kind owner)

/-- Whether it is new or not, a dependency is there once it was recorded, and nothing else is new. -/
theorem run_addDependency (name : String) (p : Progress) :
    ∃ q, (addDependency name).run p = (.ok (), q) ∧ q.session.name = p.session.name ∧
      q.caches = p.caches ∧
      ∀ d, d ∈ q.session.dependencies ↔ d ∈ p.session.dependencies ∨ d = name := by
  refine ⟨_, rfl, ?_, rfl, fun d => ?_⟩
  · dsimp only
    split <;> rfl
  · dsimp only
    split
    · rename_i hname
      refine ⟨Or.inl, fun h => h.elim id fun h => h ▸ by simpa using hname⟩
    · simp

namespace Ledger

/-- Progress in the session of the owner, with caches in which patterns have their own escapes. -/
structure Open (L : Ledger) (p : Progress) : Prop where
  name : p.session.name = some L.owner
  patterns : EscapesOwn p.caches.patterns

/-- The books are right with some marks entered. -/
structure At (L : Ledger) (marks : Set Mark) (p : Progress) : Prop extends L.Open p where
  booked : L.booked marks p.session.dependencies

variable {α β : Type} {L : Ledger} {before : Set Mark} {Q Q' : α → Prop} {R : β → Prop}
  {A : α → Set Mark} {B : β → Set Mark} {a : Compile α}

/-- A run ended in one of the failures, or with a result whose marks are entered. -/
inductive Ends (L : Ledger) (Q : α → Prop) (after : α → Set Mark) :
    Except Failure α × Progress → Prop where
  | ok {x : α} {q : Progress} (value : Q x) (books : L.At (after x) q) : Ends L Q after (.ok x, q)
  | error {f : Failure} {q : Progress} (fails : L.fails f) : Ends L Q after (.error f, q)

/-- A computation keeps the books. -/
def Books (L : Ledger) (before : Set Mark) (Q : α → Prop) (after : α → Set Mark) (a : Compile α) :
    Prop :=
  ∀ marks p, L.At (marks ∪ before) p → L.Ends Q (fun x => marks ∪ after x) (a.run p)

/-- A computation that enters no marks. -/
abbrev Still (L : Ledger) (Q : α → Prop) (a : Compile α) : Prop := L.Books ∅ Q (fun _ => ∅) a

/-- A computation that enters the marks of its expression. -/
abbrev Enters (L : Ledger) (a : Compile Expression) : Prop :=
  L.Books ∅ Expression.PlainNull Expression.marks a

namespace Books

/-- Marks that are entered already stay entered. -/
theorem frame (h : L.Books ∅ Q A a) (before : Set Mark) :
    L.Books before Q (fun x => before ∪ A x) a := by
  intro marks p hp
  have hends := h (marks ∪ before) p (by rwa [Set.union_empty])
  simpa only [Set.union_assoc] using hends

theorem pure {x : α} (hx : Q x) (h : A x = before) : L.Books before Q A (Pure.pure x) := by
  intro marks p hp
  exact .ok hx (by rwa [h])

theorem fail {failure : Failure} (h : L.fails failure) :
    L.Books before Q A (Compile.fail failure) :=
  fun _ _ _ => .error h

theorem bind {f : α → Compile β} (h : L.Books before Q A a)
    (hf : ∀ x, Q x → L.Books (A x) R B (f x)) : L.Books before R B (a >>= f) := by
  intro marks p hp
  have hends := h marks p hp
  generalize ha : a.run p = r at hends
  cases hends with
  | ok hv hq =>
    rw [run_bind_ok ha]
    exact hf _ hv marks _ hq
  | error he =>
    rw [run_bind_error ha]
    exact .error he

/-- What a computation enters comes on top of what is entered already. -/
theorem andThen {f : α → Compile β} (h : L.Books ∅ Q A a)
    (hf : ∀ x, Q x → L.Books (before ∪ A x) R B (f x)) :
    L.Books before R B (a >>= f) :=
  (h.frame before).bind hf

theorem ite {c : Prop} [Decidable c] {a' : Compile α} (ht : c → L.Books before Q A a)
    (he : ¬ c → L.Books before Q A a') : L.Books before Q A (if c then a else a') := by
  by_cases hc : c
  · rw [if_pos hc]
    exact ht hc
  · rw [if_neg hc]
    exact he hc

/-- What follows a choice follows both of its sides. -/
theorem iteBind {c : Prop} [Decidable c] {a' : Compile α} {f : α → Compile β}
    (ht : c → L.Books before Q A a) (he : ¬ c → L.Books before Q A a')
    (hf : ∀ x, Q x → L.Books (A x) R B (f x)) :
    L.Books before R B (if c then a >>= f else a' >>= f) :=
  ite (fun hc => (ht hc).bind hf) fun hc => (he hc).bind hf

/-- A step that may fail and does nothing else. -/
theorem liftBind {x : Except Fault α} {f : α → Compile β}
    (h : ∀ v, x = .ok v → L.Books before R B (f v)) :
    L.Books before R B ((liftM x : Compile α) >>= f) := by
  cases x with
  | ok v => exact h v rfl
  | error e => exact fun _ _ _ => .error (L.fault e)

theorem lift {x : Except Fault α} (h : ∀ v, x = .ok v → Q v ∧ A v = before) :
    L.Books before Q A (liftM x : Compile α) := by
  cases x with
  | ok v => exact pure (h v rfl).1 (h v rfl).2
  | error e => exact fail (L.fault e)

theorem mapM {f : α → Compile β} : ∀ {l : List α}, (∀ x ∈ l, L.Books ∅ R B (f x)) →
    L.Books ∅ (fun ys => ∀ y ∈ ys, R y) (fun ys => {k | ∃ y ∈ ys, k ∈ B y}) (l.mapM f)
  | [], _ => by
    rw [List.mapM_nil]
    exact pure (by simp) (by simp)
  | x :: l, h => by
    rw [List.mapM_cons]
    refine (h x List.mem_cons_self).bind fun y hy => ?_
    refine (mapM fun z hz => h z (List.mem_cons_of_mem _ hz)).andThen fun ys hys => ?_
    refine pure (List.forall_mem_cons.mpr ⟨hy, hys⟩) (Set.ext fun k => ?_)
    simp

theorem forM {f : α → Compile PUnit} : ∀ {l : List α}, (∀ x ∈ l, L.Still (fun _ => True) (f x)) →
    L.Still (fun _ => True) (l.forM f)
  | [], _ => pure trivial rfl
  | x :: _, h =>
    (h x List.mem_cons_self).bind fun _ _ => forM fun z hz => h z (List.mem_cons_of_mem _ hz)

/-! ## Sessions -/

theorem session : L.Still (fun s => s.name = some L.owner) Compile.session :=
  fun _ _ hp => .ok hp.name hp

/-- A step that leaves dependencies and patterns as they are. -/
theorem update {f : Progress → Progress} (hname : ∀ p, (f p).session.name = p.session.name)
    (hdependencies : ∀ p, (f p).session.dependencies = p.session.dependencies)
    (hcaches : ∀ p, (f p).caches = p.caches) :
    L.Still (fun _ => True) (modify f : Compile PUnit) := by
  intro marks p hp
  refine .ok trivial ⟨⟨(hname p).trans hp.name, ?_⟩, ?_⟩
  · show EscapesOwn (f p).caches.patterns
    rw [hcaches]
    exact hp.patterns
  · show L.booked _ (f p).session.dependencies
    rw [hdependencies]
    exact hp.booked

theorem report (records : List LogRecord) : L.Still (fun _ => True) (Compile.report records) :=
  update (fun _ => rfl) (fun _ => rfl) fun _ => rfl

theorem modifySession {f : Session → Session} (hname : ∀ s, (f s).name = s.name)
    (hdependencies : ∀ s, (f s).dependencies = s.dependencies) :
    L.Still (fun _ => True) (Compile.modifySession f) :=
  update (fun p => hname p.session) (fun p => hdependencies p.session) fun _ => rfl

theorem addConflict (conflict : String) :
    L.Still (fun _ => True) (Compile.addConflict conflict) := by
  refine session.bind fun s _ => ite (fun _ => pure trivial rfl) fun _ => ?_
  refine (modifySession (fun _ => ?_) fun _ => ?_).bind fun _ _ => report _ <;> rfl

theorem addWarning (message : String) : L.Still (fun _ => True) (Compile.addWarning message) := by
  refine session.bind fun s _ => ite (fun _ => pure trivial rfl) fun _ => ?_
  refine (modifySession (fun _ => ?_) fun _ => ?_).bind fun _ _ => report _ <;> rfl

theorem escapedPattern (pattern : Value) :
    L.Still (fun _ => True) (Compile.escapedPattern pattern) := by
  cases pattern with
  | list vs => exact fail (L.fault _)
  | object fields => exact fail (L.fault _)
  | scalar s =>
    cases s with
    | text t =>
      intro marks p hp
      obtain ⟨patterns, hown, hrun⟩ := run_escapedPattern (t := t) hp.patterns
      rw [hrun]
      exact .ok trivial ⟨⟨hp.name, hown⟩, hp.booked⟩
    | _ => exact fail (L.fault _)

/-- Going one level deeper and coming back leaves the books alone. -/
theorem nested (h : L.Books before Q A a) : L.Books before Q A (Compile.nested a) := by
  intro marks p hp
  rw [run_nested]
  have hends := h marks p.deeper ⟨⟨hp.name, hp.patterns⟩, hp.booked⟩
  generalize a.run p.deeper = r at hends ⊢
  cases hends with
  | ok hv hq => exact .ok hv ⟨⟨hq.name, hq.patterns⟩, hq.booked⟩
  | error hf => exact .error hf

/-- A shape declares only properties that are allowed. -/
theorem shape {properties : List Property} {A : Node → Set Mark}
    (hnames : ∀ p ∈ properties, L.allows p.name)
    (hbefore : before = {k | ∃ p ∈ properties, k ∈ p.value.marks})
    (hafter : A (.shape properties) = (Node.shape properties).marks) :
    L.Books before (fun _ => True) A (Pure.pure (.shape properties)) := by
  intro marks p hp
  refine .ok trivial ⟨hp.toOpen, ?_⟩
  show L.booked (marks ∪ A _) _
  rw [hafter, Node.marks_shape, ← hbefore, ← Set.union_assoc]
  refine L.declares hp.booked ?_
  rintro k ⟨p, hp, rfl⟩
  exact ⟨p.name, rfl, hnames p hp⟩

end Books

/-! ## Compiling twice -/

/-- Two runs in the session of one schema. -/
def both (L : Ledger) : Comparison where
  linked p q := L.Open p ∧ L.Open q

theorem both_steady (L : Ledger) : L.both.Steady :=
  .of_kept (fun h => h.1.name.trans h.2.name.symm) (fun h => ⟨h.1.patterns, h.2.patterns⟩)
    fun h hp hq => ⟨⟨hp.name.trans h.1.name, hp.patterns⟩, ⟨hq.name.trans h.2.name, hq.patterns⟩⟩

section Twice

variable {env : Environment} {refer : Refer} (hr : ReferAlike L.both True refer refer)
include hr

theorem compileCached_twice {inner : Inner} {schema : Fields} {top branch : Bool}
    (h : ∀ fields, visibleFields env schema = .ok fields →
      InnerAlike L.both True (PartOf fields) inner inner) :
    L.both.Alike (FieldsMatched True schema top branch)
      (compileCached env refer inner schema top branch)
      (compileCached env refer inner schema top branch) := by
  intro p q hpq
  cases hkey : cacheKey env schema top branch with
  | error f =>
    rw [run_compileCached_error hkey, run_compileCached_error hkey]
    exact .error hpq
  | ok key =>
    -- a schema compiled under a name is not cached
    rw [run_compileCached_skip hkey (by simp [hpq.1.name]),
      run_compileCached_skip hkey (by simp [hpq.2.name])]
    exact compileFields_alike L.both_steady (.refl env) hr (fun _ => rfl) h p q hpq

/-- **A schema compiled twice in the session of its owner gives the same expression, whatever the
session gathered in between.** -/
theorem compileWithin_twice (levels : Nat) (v : Value) (top branch : Bool) :
    L.both.Alike Eq (compileWithin env refer top branch levels v)
      (compileWithin env refer top branch levels v) := by
  refine (compileWithin_alike (D := fun _ => True) L.both_steady rfl (fun _ _ _ _ _ _ => trivial)
    (fun levels schema top branch _ h => compileCached_twice hr h) levels v top branch
    trivial).mono fun e e' he => he.inner.2 trivial

end Twice

end Ledger

end SchemaForge.Compile
