import SchemaForge.Compile.Session
import SchemaForge.Proofs.Outcome

/-!
# Computations that do the same

`Same X Q a b` compares two computations in the session of the schema `X`: from every progress in
that session they do the same, and what they give, if they give something, has the property `Q`. The
rules below follow the way computations are put together, so a statement about a computation is
proved along its text. With the same computation on both sides they are the rules for properties of
results alone.
-/

namespace SchemaForge

/-- The progress one level deeper. -/
def Progress.deeper (p : Progress) : Progress :=
  { p with session := { p.session with depth := p.session.depth + 1 } }

/-- The progress one level further up. -/
def Progress.shallower (p : Progress) : Progress :=
  { p with session := { p.session with depth := p.session.depth - 1 } }

namespace Compile

variable {α β : Type} {X : String} {Q : α → Prop} {R : β → Prop}

/-- In the session of `X` two computations do the same, and their result has a property. -/
def Same (X : String) (Q : α → Prop) (a b : Compile α) : Prop :=
  ∀ p, p.session.name = some X → a.run p = b.run p ∧
    ∀ x q, a.run p = (.ok x, q) → q.session.name = some X ∧ Q x

theorem run_bind_ok {a : Compile α} {f : α → Compile β} {p q : Progress} {x : α}
    (h : a.run p = (.ok x, q)) : (a >>= f).run p = (f x).run q := by
  have hrun : (a >>= f).run p = (ExceptT.bindCont f (a.run p).1).run (a.run p).2 := rfl
  rw [hrun, h]
  rfl

theorem run_bind_error {a : Compile α} {f : α → Compile β} {p q : Progress} {e : Failure}
    (h : a.run p = (.error e, q)) : (a >>= f).run p = (.error e, q) := by
  have hrun : (a >>= f).run p = (ExceptT.bindCont f (a.run p).1).run (a.run p).2 := rfl
  rw [hrun, h]
  rfl

/-- What a sequence of two computations gives, the second gives from where the first ended. -/
theorem run_bind_eq_ok {a : Compile α} {f : α → Compile β} {p q : Progress} {y : β}
    (h : (a >>= f).run p = (.ok y, q)) :
    ∃ x r, a.run p = (.ok x, r) ∧ (f x).run r = (.ok y, q) := by
  rcases ha : a.run p with ⟨result, r⟩
  cases result with
  | error e =>
    rw [run_bind_error ha] at h
    cases h
  | ok x =>
    rw [run_bind_ok ha] at h
    exact ⟨x, r, rfl, h⟩

/-- A run that goes on after a step that may fault did not fault there. -/
theorem run_liftBind_eq_ok {x : Except Fault α} {f : α → Compile β} {p q : Progress} {y : β}
    (h : ((liftM x : Compile α) >>= f).run p = (.ok y, q)) :
    ∃ v, x = .ok v ∧ (f v).run p = (.ok y, q) := by
  cases x with
  | ok v => exact ⟨v, rfl, h⟩
  | error f => cases h

/-- A nested computation runs one level deeper, and the level is left again also if it fails. -/
theorem run_nested (a : Compile α) (p : Progress) :
    (nested a).run p = ((a.run p.deeper).1, (a.run p.deeper).2.shallower) := rfl

theorem run_nested_eq_ok {a : Compile α} {p q : Progress} {x : α}
    (h : (nested a).run p = (.ok x, q)) : ∃ r, a.run p.deeper = (.ok x, r) ∧ q = r.shallower := by
  rw [run_nested] at h
  rcases ha : a.run p.deeper with ⟨result, r⟩
  rw [ha] at h
  cases h
  exact ⟨r, rfl, rfl⟩

theorem run_inSession (s : Session) (a : Compile α) (report : Failure → Failure) (p : Progress) :
    (inSession s a report).run p =
      (((a.run { p with session := s }).1.mapError report).map
          fun x => (x, (a.run { p with session := s }).2.session),
        { (a.run { p with session := s }).2 with session := p.session }) := rfl

/-- What a computation gives in a session of its own, with the session as it was left. -/
theorem run_inSession_eq_ok {s t : Session} {a : Compile α} {report : Failure → Failure}
    {p q : Progress} {x : α} (h : (inSession s a report).run p = (.ok (x, t), q)) :
    ∃ r, a.run { p with session := s } = (.ok x, r) ∧ t = r.session := by
  rw [run_inSession] at h
  rcases ha : a.run { p with session := s } with ⟨result, r⟩
  rw [ha] at h
  cases result with
  | error e => cases h
  | ok y =>
    cases h
    exact ⟨r, rfl, rfl⟩

namespace Same

variable {a b : Compile α}

theorem mono {Q' : α → Prop} (h : Same X Q a b) (hQ : ∀ x, Q x → Q' x) : Same X Q' a b := by
  intro p hp
  obtain ⟨heq, hok⟩ := h p hp
  exact ⟨heq, fun x q hx => ⟨(hok x q hx).1, hQ x (hok x q hx).2⟩⟩

theorem pure {x : α} (h : Q x) : Same X Q (Pure.pure x) (Pure.pure x) := by
  intro p hp
  refine ⟨rfl, fun y q hy => ?_⟩
  cases hy
  exact ⟨hp, h⟩

/-- Computations after each other, each with what is known of the results before it. -/
theorem bind {f g : α → Compile β} (h : Same X Q a b) (hfg : ∀ x, Q x → Same X R (f x) (g x)) :
    Same X R (a >>= f) (b >>= g) := by
  intro p hp
  obtain ⟨heq, hok⟩ := h p hp
  rcases ha : a.run p with ⟨result, q⟩
  rw [ha] at heq
  -- both sides fail in the same way, or go on with the same result from the same progress
  cases result with
  | error e =>
    rw [run_bind_error ha, run_bind_error heq.symm]
    refine ⟨rfl, fun y q hy => ?_⟩
    cases hy
  | ok x =>
    obtain ⟨hq, hx⟩ := hok x q ha
    rw [run_bind_ok ha, run_bind_ok heq.symm]
    exact hfg x hx q hq

theorem fail (failure : Failure) : Same X Q (Compile.fail failure) (Compile.fail failure) := by
  intro p _
  refine ⟨rfl, fun y q hy => ?_⟩
  cases hy

theorem ite {c : Prop} [Decidable c] {a' b' : Compile α} (ht : c → Same X Q a b)
    (he : ¬ c → Same X Q a' b') : Same X Q (if c then a else a') (if c then b else b') := by
  by_cases hc : c
  · rw [if_pos hc, if_pos hc]
    exact ht hc
  · rw [if_neg hc, if_neg hc]
    exact he hc

/-- What follows a choice follows both of its sides. -/
theorem iteBind {c : Prop} [Decidable c] {a' b' : Compile α} {f g : α → Compile β}
    (ht : c → Same X Q a b) (he : ¬ c → Same X Q a' b')
    (hfg : ∀ x, Q x → Same X R (f x) (g x)) :
    Same X R (if c then a >>= f else a' >>= f) (if c then b >>= g else b' >>= g) :=
  ite (fun hc => (ht hc).bind hfg) fun hc => (he hc).bind hfg

/-- A step that may fail and does nothing else. -/
theorem lift {x : Except Fault α} (h : ∀ v, x = .ok v → Q v) :
    Same X Q (liftM x : Compile α) (liftM x) := by
  cases x with
  | ok v => exact pure (h v rfl)
  | error f => exact fail (.fault f)

/-- A step that may fault does so on both sides alike. -/
theorem liftBind {x : Except Fault α} {f g : α → Compile β}
    (h : ∀ v, x = .ok v → Same X R (f v) (g v)) :
    Same X R ((liftM x : Compile α) >>= f) (liftM x >>= g) :=
  bind (lift fun _ hv => hv) h

/-- The same computation for each element of a list. -/
theorem mapM {f g : α → Compile β} : ∀ {l : List α}, (∀ x ∈ l, Same X R (f x) (g x)) →
    Same X (fun ys => ∀ y ∈ ys, R y) (l.mapM f) (l.mapM g)
  | [], _ => by
    rw [List.mapM_nil, List.mapM_nil]
    exact pure fun y hy => absurd hy List.not_mem_nil
  | x :: l, h => by
    rw [List.mapM_cons, List.mapM_cons]
    refine bind (h x List.mem_cons_self) fun y hy => ?_
    refine bind (mapM fun z hz => h z (List.mem_cons_of_mem _ hz)) fun ys hys => ?_
    exact pure (List.forall_mem_cons.mpr ⟨hy, hys⟩)

theorem forM {f g : α → Compile PUnit} : ∀ {l : List α},
    (∀ x ∈ l, Same X (fun _ => True) (f x) (g x)) → Same X (fun _ => True) (l.forM f) (l.forM g)
  | [], _ => pure trivial
  | x :: _, h =>
    bind (h x List.mem_cons_self) fun _ _ => forM fun z hz => h z (List.mem_cons_of_mem _ hz)

/-! ## Sessions -/

/-- Both sides read the session of one name. -/
theorem session : Same X (fun s => s.name = some X) Compile.session Compile.session := by
  intro p hp
  refine ⟨rfl, fun s q hs => ?_⟩
  cases hs
  exact ⟨hp, hp⟩

theorem update {f : Progress → Progress} (h : ∀ p, (f p).session.name = p.session.name) :
    Same X (fun _ => True) (modify f : Compile PUnit) (modify f) := by
  intro p hp
  refine ⟨rfl, fun u q hu => ?_⟩
  cases hu
  exact ⟨(h p).trans hp, trivial⟩

theorem report (records : List LogRecord) :
    Same X (fun _ => True) (Compile.report records) (Compile.report records) :=
  update fun _ => rfl

theorem modifySession {f : Session → Session} (h : ∀ s, (f s).name = s.name) :
    Same X (fun _ => True) (Compile.modifySession f) (Compile.modifySession f) :=
  update fun p => h p.session

theorem addDependency (name : String) :
    Same X (fun _ => True) (Compile.addDependency name) (Compile.addDependency name) :=
  modifySession fun s => by
    split <;> rfl

theorem addConflict (conflict : String) :
    Same X (fun _ => True) (Compile.addConflict conflict) (Compile.addConflict conflict) := by
  refine bind session fun s _ => ite (fun _ => pure trivial) fun _ => ?_
  exact bind (modifySession fun _ => rfl) fun _ _ => report _

theorem addWarning (message : String) :
    Same X (fun _ => True) (Compile.addWarning message) (Compile.addWarning message) := by
  refine bind session fun s _ => ite (fun _ => pure trivial) fun _ => ?_
  exact bind (modifySession fun _ => rfl) fun _ _ => report _

/-- Going one level deeper and coming back leaves the name of the session alone. -/
theorem nested (h : Same X Q a b) : Same X Q (Compile.nested a) (Compile.nested b) := by
  intro p hp
  obtain ⟨heq, hok⟩ := h p.deeper hp
  refine ⟨by rw [run_nested, run_nested, heq], fun x q hx => ?_⟩
  obtain ⟨r, hr, rfl⟩ := run_nested_eq_ok hx
  exact hok x r hr

theorem getProgress : Same X (fun p => p.session.name = some X) (get : Compile Progress) get := by
  intro p hp
  refine ⟨rfl, fun s q hs => ?_⟩
  cases hs
  exact ⟨hp, hp⟩

/-- Both sides consult the same cache, and leave it alike. -/
theorem escapedPattern (pattern : Value) :
    Same X (fun _ => True) (Compile.escapedPattern pattern) (Compile.escapedPattern pattern) := by
  unfold Compile.escapedPattern
  split
  · refine bind getProgress fun p _ => ?_
    dsimp only
    split
    · exact bind (update fun _ => rfl) fun _ _ => pure trivial
    · exact bind (update fun _ => rfl) fun _ _ => pure trivial
  · exact fail _

end Same

/-! ## Results -/

/-- Whatever a computation gives has a property. -/
def Ends (Q : α → Prop) (a : Compile α) : Prop := ∀ p x q, a.run p = (.ok x, q) → Q x

namespace Ends

theorem pure {x : α} (h : Q x) : Ends Q (Pure.pure x) := by
  intro p y q hy
  cases hy
  exact h

theorem bind {a : Compile β} {f : β → Compile α} (h : ∀ x, Ends Q (f x)) : Ends Q (a >>= f) := by
  intro p y q hy
  obtain ⟨x, r, -, hx⟩ := run_bind_eq_ok hy
  exact h x r y q hx

/-- What follows a computation may use what is known of its result. -/
theorem andThen {a : Compile β} {f : β → Compile α} (ha : Ends R a) (h : ∀ x, R x → Ends Q (f x)) :
    Ends Q (a >>= f) := by
  intro p y q hy
  obtain ⟨x, r, hr, hx⟩ := run_bind_eq_ok hy
  exact h x (ha p x r hr) r y q hx

theorem fail (failure : Failure) : Ends Q (Compile.fail failure) := by
  intro p y q hy
  cases hy

end Ends

end Compile

end SchemaForge
