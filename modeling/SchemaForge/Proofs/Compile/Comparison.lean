import SchemaForge.Proofs.Compile.Logic

/-!
# Comparing two runs

Two computations are compared run by run. A `Comparison` says what the progress of the first has in
common with that of the second, and after which failures of either nothing more is asked. `Alike`
then says that the two fail in the same way or give results that are in a relation.

The two sides may be one computation started from two caches, or one schema compiled with two sets
of options. As in `Same`, the rules follow the way computations are put together.
-/

namespace SchemaForge.Compile

/-- How two runs are compared. -/
structure Comparison where
  /-- What the progress of both has in common. -/
  linked : Progress → Progress → Prop
  /-- The failures of the first run after which nothing is asked. -/
  excusedLeft : Failure → Prop := fun _ => False
  /-- The failures of the second run after which nothing is asked. -/
  excusedRight : Failure → Prop := fun _ => False

namespace Comparison

variable {α α' β β' : Type} {C : Comparison} {Q : α → α' → Prop} {R : β → β' → Prop}

/-- Two runs ended alike: in the same failure, or with results in the relation `Q`. -/
inductive Agree (C : Comparison) (Q : α → α' → Prop) :
    Except Failure α × Progress → Except Failure α' × Progress → Prop where
  | ok {x : α} {y : α'} {p q : Progress} (value : Q x y) (linked : C.linked p q) :
      Agree C Q (.ok x, p) (.ok y, q)
  | error {f : Failure} {p q : Progress} (linked : C.linked p q) :
      Agree C Q (.error f, p) (.error f, q)
  | left {f : Failure} {p : Progress} {r : Except Failure α' × Progress}
      (excused : C.excusedLeft f) : Agree C Q (.error f, p) r
  | right {f : Failure} {q : Progress} {r : Except Failure α × Progress}
      (excused : C.excusedRight f) : Agree C Q r (.error f, q)

theorem Agree.mono {Q' : α → α' → Prop} {r : Except Failure α × Progress}
    {r' : Except Failure α' × Progress} (h : C.Agree Q r r') (hQ : ∀ x y, Q x y → Q' x y) :
    C.Agree Q' r r' := by
  cases h with
  | ok hv hl => exact .ok (hQ _ _ hv) hl
  | error hl => exact .error hl
  | left he => exact .left he
  | right he => exact .right he

/-- From linked progress two computations end alike. -/
def Alike (C : Comparison) (Q : α → α' → Prop) (a : Compile α) (b : Compile α') : Prop :=
  ∀ p q, C.linked p q → C.Agree Q (a.run p) (b.run q)

namespace Alike

variable {a : Compile α} {b : Compile α'}

theorem mono {Q' : α → α' → Prop} (h : C.Alike Q a b) (hQ : ∀ x y, Q x y → Q' x y) :
    C.Alike Q' a b :=
  fun p q hpq => (h p q hpq).mono hQ

theorem pure {x : α} {y : α'} (h : Q x y) : C.Alike Q (Pure.pure x) (Pure.pure y) :=
  fun _ _ hpq => .ok h hpq

theorem fail (failure : Failure) : C.Alike Q (Compile.fail failure) (Compile.fail failure) :=
  fun _ _ hpq => .error hpq

/-- Computations after each other, with whatever relates the results before them. -/
theorem bind {f : α → Compile β} {g : α' → Compile β'} (h : C.Alike Q a b)
    (hfg : ∀ x y, Q x y → C.Alike R (f x) (g y)) : C.Alike R (a >>= f) (b >>= g) := by
  intro p q hpq
  have hab := h p q hpq
  generalize ha : a.run p = ra at hab
  generalize hb : b.run q = rb at hab
  cases hab with
  | ok hv hl =>
    rw [run_bind_ok ha, run_bind_ok hb]
    exact hfg _ _ hv _ _ hl
  | error hl =>
    rw [run_bind_error ha, run_bind_error hb]
    exact .error hl
  | left he =>
    rw [run_bind_error ha]
    exact .left he
  | right he =>
    rw [run_bind_error hb]
    exact .right he

theorem ite {c : Prop} [Decidable c] {a' : Compile α} {b' : Compile α'} (ht : c → C.Alike Q a b)
    (he : ¬ c → C.Alike Q a' b') : C.Alike Q (if c then a else a') (if c then b else b') := by
  by_cases hc : c
  · rw [if_pos hc, if_pos hc]
    exact ht hc
  · rw [if_neg hc, if_neg hc]
    exact he hc

/-- What follows a choice follows both of its sides. -/
theorem iteBind {c : Prop} [Decidable c] {a' : Compile α} {b' : Compile α'} {f : α → Compile β}
    {g : α' → Compile β'} (ht : c → C.Alike Q a b) (he : ¬ c → C.Alike Q a' b')
    (hfg : ∀ x y, Q x y → C.Alike R (f x) (g y)) :
    C.Alike R (if c then a >>= f else a' >>= f) (if c then b >>= g else b' >>= g) :=
  ite (fun hc => (ht hc).bind hfg) fun hc => (he hc).bind hfg

/-- A step that may fail and does nothing else. -/
theorem lift {x : Except Fault α} :
    C.Alike (fun v w => v = w ∧ x = .ok v) (liftM x : Compile α) (liftM x) := by
  cases x with
  | ok v => exact pure ⟨rfl, rfl⟩
  | error f => exact fail (.fault f)

/-- Two steps that end alike. -/
theorem liftPaired {x : Except Fault α} {x' : Except Fault α'} (h : Outcome.Paired Q x x') :
    C.Alike Q (liftM x : Compile α) (liftM x' : Compile α') := by
  cases h with
  | ok h => exact pure h
  | error => exact fail (.fault _)

/-- A step that may fault does so on both sides alike. -/
theorem liftBind {x : Except Fault α} {f : α → Compile β} {g : α → Compile β'}
    (h : ∀ v, x = .ok v → C.Alike R (f v) (g v)) :
    C.Alike R ((liftM x : Compile α) >>= f) (liftM x >>= g) := by
  refine lift.bind fun v w hvw => ?_
  obtain ⟨rfl, hx⟩ := hvw
  exact h v hx

/-- The same for each element of a list: the results are related one by one. -/
theorem mapM {f : α → Compile β} {g : α → Compile β'} : ∀ {l : List α},
    (∀ x ∈ l, C.Alike R (f x) (g x)) → C.Alike (List.Forall₂ R) (l.mapM f) (l.mapM g)
  | [], _ => by
    rw [List.mapM_nil, List.mapM_nil]
    exact pure .nil
  | x :: l, h => by
    rw [List.mapM_cons, List.mapM_cons]
    refine bind (h x List.mem_cons_self) fun y y' hy => ?_
    refine bind (mapM fun z hz => h z (List.mem_cons_of_mem _ hz)) fun ys ys' hys => ?_
    exact pure (.cons hy hys)

theorem forM {f g : α → Compile PUnit} : ∀ {l : List α},
    (∀ x ∈ l, C.Alike Eq (f x) (g x)) → C.Alike Eq (l.forM f) (l.forM g)
  | [], _ => pure rfl
  | x :: _, h =>
    bind (h x List.mem_cons_self) fun _ _ _ => forM fun z hz => h z (List.mem_cons_of_mem _ hz)

end Alike

/-! ## Steady comparisons -/

/-- What a comparison has to keep so that all parts of the compiler can be compared: the name of the
session is the same on both sides, and neither what a session gathers, nor a report, nor the escape
of a pattern, nor going one level deeper and coming back tells them apart. -/
structure Steady (C : Comparison) : Prop where
  name_eq : ∀ {p q}, C.linked p q → p.session.name = q.session.name
  deeper : ∀ {p q}, C.linked p q → C.linked p.deeper q.deeper
  shallower : ∀ {p q}, C.linked p q → C.linked p.shallower q.shallower
  report : ∀ records, C.Alike Eq (Compile.report records) (Compile.report records)
  addDependency : ∀ name, C.Alike Eq (Compile.addDependency name) (Compile.addDependency name)
  addConflict : ∀ conflict, C.Alike Eq (Compile.addConflict conflict) (Compile.addConflict conflict)
  addWarning : ∀ message, C.Alike Eq (Compile.addWarning message) (Compile.addWarning message)
  escapedPattern : ∀ pattern,
    C.Alike Eq (Compile.escapedPattern pattern) (Compile.escapedPattern pattern)

/-- Where both sides have one session, it can be changed alike on both as long as its name stays, and
logs do not count. -/
theorem Steady.of_sessions (hsession : ∀ {p q}, C.linked p q → p.session = q.session)
    (hupdate : ∀ {p q} (f : Session → Session) (log log' : List LogRecord), C.linked p q →
      (∀ s, (f s).name = s.name) →
      C.linked { p with session := f p.session, log := log }
        { q with session := f q.session, log := log' })
    (hpattern : ∀ pattern,
      C.Alike Eq (Compile.escapedPattern pattern) (Compile.escapedPattern pattern)) :
    C.Steady := by
  have hread : C.Alike Eq Compile.session Compile.session := fun p q hpq => .ok (hsession hpq) hpq
  have hmodify : ∀ f : Session → Session, (∀ s, (f s).name = s.name) →
      C.Alike Eq (Compile.modifySession f) (Compile.modifySession f) :=
    fun f hf p q hpq => .ok rfl (hupdate f p.log q.log hpq hf)
  have hreport : ∀ records, C.Alike Eq (Compile.report records) (Compile.report records) :=
    fun records p q hpq => .ok rfl (hupdate id _ _ hpq fun _ => rfl)
  refine
    { name_eq := fun hpq => by rw [hsession hpq]
      deeper := fun hpq => hupdate (fun s => { s with depth := s.depth + 1 }) _ _ hpq fun _ => rfl
      shallower := fun hpq => hupdate (fun s => { s with depth := s.depth - 1 }) _ _ hpq fun _ => rfl
      report := hreport
      addDependency := fun name => hmodify _ fun s => by split <;> rfl
      addConflict := fun conflict => ?_
      addWarning := fun message => ?_
      escapedPattern := hpattern }
  all_goals
    refine hread.bind fun s s' hs => ?_
    subst hs
    refine Alike.ite (fun _ => .pure rfl) fun _ => ?_
    refine Alike.bind (Q := Eq) (hmodify _ fun _ => ?_) fun _ _ _ => hreport _
    rfl

namespace Steady

variable {a : Compile α} {b : Compile α'} (hC : C.Steady)
include hC

/-- Linked states have sessions of one name. -/
theorem session : C.Alike (fun s t => s.name = t.name) Compile.session Compile.session :=
  fun _ _ hpq => .ok (hC.name_eq hpq) hpq

/-- One level deeper on both sides. -/
theorem nested (h : C.Alike Q a b) : C.Alike Q (Compile.nested a) (Compile.nested b) := by
  intro p q hpq
  rw [run_nested, run_nested]
  have hab := h p.deeper q.deeper (hC.deeper hpq)
  generalize a.run p.deeper = ra at hab
  generalize b.run q.deeper = rb at hab
  cases hab with
  | ok hv hl => exact .ok hv (hC.shallower hl)
  | error hl => exact .error (hC.shallower hl)
  | left he => exact .left he
  | right he => exact .right he

end Steady

/-! ## Excuses -/

/-- A comparison in which nothing is asked after some more failures of the first run. -/
def excusing (C : Comparison) (E : Failure → Prop) : Comparison :=
  { C with excusedLeft := fun f => C.excusedLeft f ∨ E f }

variable {E : Failure → Prop}

theorem Agree.excusing {r : Except Failure α × Progress} {r' : Except Failure α' × Progress}
    (h : C.Agree Q r r') : (C.excusing E).Agree Q r r' := by
  cases h with
  | ok hv hl => exact .ok hv hl
  | error hl => exact .error hl
  | left he => exact .left (Or.inl he)
  | right he => exact .right he

/-- Excusing more failures keeps computations alike. -/
theorem Alike.excusing {a : Compile α} {b : Compile α'} (h : C.Alike Q a b) :
    (C.excusing E).Alike Q a b :=
  fun p q hpq => (h p q hpq).excusing

theorem Steady.excusing (hC : C.Steady) : (C.excusing E).Steady where
  name_eq := hC.name_eq
  deeper := hC.deeper
  shallower := hC.shallower
  report records := (hC.report records).excusing
  addDependency name := (hC.addDependency name).excusing
  addConflict conflict := (hC.addConflict conflict).excusing
  addWarning message := (hC.addWarning message).excusing
  escapedPattern pattern := (hC.escapedPattern pattern).excusing

end Comparison

end SchemaForge.Compile
