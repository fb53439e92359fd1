import SchemaForge.Proofs.Compile.Onward

/-!
# Where conflicts come from

A conflict is recorded by a composition: its scan finds a property that two branches define
differently. So whatever is compiled, and whatever it ends in, the conflicts that are new in the
session are those of compositions inside it. A composition records its own and, besides them, only
those of compositions inside its branches.
-/

namespace SchemaForge.Compile

open Schema

variable {env : Environment} {p q : Progress} {c : String}

/-- No other conflicts than certain ones are recorded. -/
def recording (expected : String → Prop) : Course where
  goes p q := ∀ c ∈ q.session.conflicts, c ∈ p.session.conflicts ∨ expected c
  records := expected
  aside h := h.conflicts
  trans h h' c hc := (h' c hc).elim (h c) Or.inr
  nested h := h

theorem blind_recording (expected : String → Prop) : (recording expected).Blind :=
  fun _ _ _ hc => Or.inl hc

/-- A conflict among the visible branches of a composition somewhere inside a value. -/
def ConflictInside (env : Environment) (v : Value) (c : String) : Prop :=
  ∃ schema fields branches, Inside env v (.object schema) ∧ visibleFields env schema = .ok fields ∧
    classify fields = .ok (.allOf branches) ∧ ConflictAmong env branches c

theorem runRules_recording (env : Environment) (v : Value) :
    RunRules (recording (ConflictInside env v)) (fun _ => True) env (Inside env v) where
  blind := blind_recording _
  parts hs hfields hv := .part hs hfields hv
  allOf hs hfields hform := ⟨fun _ hc => ⟨_, _, _, hs, hfields, hform, hc⟩, fun _ => trivial⟩
  tooDeep _ _ := trivial

/-- Inside a schema, the conflicts of the parts that are compiled are recorded. -/
theorem innerRuns_recording (env : Environment) (levels : Nat) (expected : String → Prop) :
    InnerRuns (recording expected) (fun _ => True) (fun v => ∀ c, ConflictInside env v c → expected c)
      (within env (compileReference env) levels) := by
  intro v hv branch p
  obtain ⟨hgoes, -, -⟩ := (runRules_recording env v).compileWithin_runs permits_all
    (fun _ _ _ => compileReference_runs permits_all) levels v false branch .self p
  exact ⟨fun c hc => (hgoes c hc).imp_right (hv c), fun _ _ => trivial, fun _ _ => trivial⟩

/-- **Whatever it ends in, the compilation of a schema records no conflicts but those of the
compositions inside it.** -/
theorem compileSchema_conflicts (env : Environment) (v : Value) (top branch : Bool) (p : Progress)
    (hc : c ∈ ((compileSchema env v top branch).run p).2.session.conflicts) :
    c ∈ p.session.conflicts ∨ ConflictInside env v c :=
  (compileSchema_runs permits_all (runRules_recording env v) .self top branch p).1 c hc

/-- A conflict of a composition inside a branch. -/
def ConflictBelow (env : Environment) (branch : Value) (c : String) : Prop :=
  ∃ part, BranchPart branch part ∧ ConflictInside env part c

/-- **A composition records the conflicts among its branches, and those of compositions inside
them.** -/
theorem compileAllOf_conflicts {levels : Nat} {branches : List Value} {nullable : Bool}
    (hc : c ∈ ((compileAllOf env (within env (compileReference env) levels) branches nullable).run
      p).2.session.conflicts) :
    c ∈ p.session.conflicts ∨ ConflictAmong env branches c ∨
      ∃ b ∈ branches, ConflictBelow env b c := by
  have hruns : Runs (recording fun c => ConflictAmong env branches c ∨
      ∃ b ∈ branches, ConflictBelow env b c) (fun _ => True)
      (compileAllOf env (within env (compileReference env) levels) branches nullable) := by
    refine compileAllOf_runs permits_all (fun b hb part hpart => ?_) ⟨fun c => Or.inl, fun _ => trivial⟩
    exact innerRuns_recording env levels _ part fun c hc => Or.inr ⟨b, hb, part, hpart, hc⟩
  exact (hruns p).1 c hc

end SchemaForge.Compile
