import SchemaForge.Proofs.Compile.History
import SchemaForge.Proofs.Compile.Keeping

/-!
# How a run goes on

Whatever is compiled, the session keeps its name and loses none of the conflicts that it has. So what
a run does later it does in the same session, with caches that may hold more: `Onward` says that a
run comes from one progress to another.
-/

namespace SchemaForge.Compile

variable {env : Environment} {p q r : Progress}

/-! ## What a session keeps -/

/-- The session at a later time. -/
structure Follows (p q : Progress) : Prop where
  name : q.session.name = p.session.name
  conflicts : p.session.conflicts ⊆ q.session.conflicts

theorem Follows.refl (p : Progress) : Follows p p := ⟨rfl, List.Subset.refl _⟩

theorem Follows.trans (h : Follows p q) (h' : Follows q r) : Follows p r :=
  ⟨h'.name.trans h.name, List.Subset.trans h.conflicts h'.conflicts⟩

theorem Follows.of_extends (h : p.session.Extends q.session) : Follows p q :=
  ⟨h.name, h.conflicts.kept.subset⟩

/-- **Compiling a schema leaves the session its name and its conflicts.** -/
theorem within_follows (levels : Nat) (v : Value) (branch : Bool) (p : Progress) :
    Follows p ((within env (compileReference env) levels v branch).run p).2 :=
  .of_extends (innerRuns_within env levels (fun _ => True) v trivial branch p).1

/-! ## The course of a run -/

/-- A run comes from one progress to another: it compiles schemas, and besides that nothing changes
but the log and what the session gathers. -/
inductive Onward (env : Environment) (p : Progress) : Progress → Prop where
  | refl : Onward env p p
  | aside {q r : Progress} (before : Onward env p q) (follows : Follows q r)
      (caches : r.caches = q.caches) : Onward env p r
  | compiled {q : Progress} (before : Onward env p q) (levels : Nat) (v : Value) (branch : Bool) :
      Onward env p ((within env (compileReference env) levels v branch).run q).2

theorem Onward.follows (h : Onward env p q) : Follows p q := by
  induction h with
  | refl => exact .refl p
  | aside _ follows _ ih => exact ih.trans follows
  | compiled _ levels v branch ih => exact ih.trans (within_follows levels v branch _)

theorem Onward.of_run {levels : Nat} {v : Value} {branch : Bool} {e : Expression}
    (h : Onward env p q)
    (hrun : (within env (compileReference env) levels v branch).run q = (.ok e, r)) :
    Onward env p r := by
  have honward := h.compiled levels v branch
  rwa [hrun] at honward

theorem Onward.deeper (h : Onward env p q) : Onward env p q.deeper :=
  h.aside ⟨rfl, List.Subset.refl _⟩ rfl

/-- What a schema compiles to in the course of a run. -/
def CompiledFrom (env : Environment) (p : Progress) (v : Value) (e : Expression) : Prop :=
  ∃ levels q r, Onward env p q ∧
    (within env (compileReference env) levels v false).run q = (.ok e, r)

/-! ## Runs over lists -/

/-- The conflicts of a composition are added to those of the session. -/
theorem run_addConflicts : ∀ (conflicts : List String) (p : Progress),
    ∃ q, (conflicts.forM addConflict).run p = (.ok (), q) ∧ q.session.name = p.session.name ∧
      q.caches = p.caches ∧
      ∀ c, c ∈ q.session.conflicts ↔ c ∈ p.session.conflicts ∨ c ∈ conflicts
  | [], p => ⟨p, rfl, rfl, rfl, fun c => by simp⟩
  | conflict :: conflicts, p => by
    obtain ⟨q, hq, hname, hcaches, hmem⟩ : ∃ q, (addConflict conflict).run p = (.ok (), q) ∧
        q.session.name = p.session.name ∧ q.caches = p.caches ∧
        ∀ c, c ∈ q.session.conflicts ↔ c ∈ p.session.conflicts ∨ c = conflict := by
      have hrun : (addConflict conflict).run p =
          (if p.session.conflicts.contains conflict then pure () else do
            modifySession fun s => { s with conflicts := s.conflicts ++ [conflict] }
            report [warn .compiler ("allOf composition conflict in " ++
              Failure.ownerText p.session.name ++ ": " ++ conflict)] : Compile Unit).run p := rfl
      rw [hrun]
      split
      · rename_i hc
        refine ⟨p, rfl, rfl, rfl, fun c => (or_iff_left_of_imp ?_).symm⟩
        rintro rfl
        exact List.contains_iff_mem.mp hc
      · exact ⟨_, rfl, rfl, rfl, fun c => by simp⟩
    obtain ⟨r, hr, hname', hcaches', hmem'⟩ := run_addConflicts conflicts q
    refine ⟨r, (run_bind_ok hq).trans hr, hname'.trans hname, hcaches'.trans hcaches, fun c => ?_⟩
    rw [hmem', hmem, List.mem_cons, or_assoc]

/-- What a run over a list gives, and what holds where it ends, if each step keeps it. -/
theorem run_mapM_eq_ok {α β : Type} {f : α → Compile β} {I : Progress → Prop} {R : α → β → Prop} :
    ∀ {l : List α} {ys : List β} {p q : Progress},
      (∀ x ∈ l, ∀ p y q, I p → (f x).run p = (.ok y, q) → R x y ∧ I q) → I p →
      (l.mapM f).run p = (.ok ys, q) → List.Forall₂ R l ys ∧ I q
  | [], ys, p, q, _, hp, h => by
    rw [List.mapM_nil] at h
    cases h
    exact ⟨.nil, hp⟩
  | x :: l, ys, p, q, hstep, hp, h => by
    rw [List.mapM_cons] at h
    obtain ⟨y, r, hy, h⟩ := run_bind_eq_ok h
    obtain ⟨hxy, hr⟩ := hstep x List.mem_cons_self _ _ _ hp hy
    obtain ⟨ys', r', hys, h⟩ := run_bind_eq_ok h
    cases h
    obtain ⟨hall, hq⟩ := run_mapM_eq_ok (fun z hz => hstep z (List.mem_cons_of_mem _ hz)) hr hys
    exact ⟨.cons hxy hall, hq⟩

end SchemaForge.Compile
