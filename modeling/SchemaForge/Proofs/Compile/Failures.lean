import SchemaForge.Proofs.Compile.Deferral
import SchemaForge.Proofs.Compile.Keeping

/-!
# How definitions fail

What is malformed in a named schema is reported as a failure of the schema, whatever part of it is
malformed and in whatever way. There is one exception: an `allOf` without branches has no first one,
and that fault leaves the definition as it is.
-/

namespace SchemaForge.Compile

open Schema

/-- Somewhere inside a value a composition of no branches is compiled. -/
def HoldsEmpty (env : Environment) (v : Value) : Prop :=
  ∃ schema fields, Inside env v (.object schema) ∧ visibleFields env schema = .ok fields ∧
    classify fields = .ok (.allOf [])

/-- The classes of the failures that a definition ends in. -/
def definitionClasses : List FailureClass := [.generation, .depth, .unresolvedReference]

/-- What ends the compilation of a value: a failure that is reported as it is, a fault that is reported
for its definition, or the missing first branch of a composition. -/
inductive Ending (env : Environment) (v : Value) : Failure → Prop where
  | failure {f : Failure} (own : f.failureClass ∈ definitionClasses) : Ending env v f
  | fault {f : Fault} (reported : f.Reported) : Ending env v (.fault f)
  | noElement (empty : HoldsEmpty env v) : Ending env v (.fault .noElement)

theorem permits_ending (env : Environment) (v : Value) : Permits (Ending env v) where
  fault _ h := .fault h
  notASchema _ _ := .failure (by simp [definitionClasses, Failure.failureClass])
  unresolved _ _ _ := .failure (by simp [definitionClasses, Failure.failureClass])

theorem runRules_inside (env : Environment) (v : Value) :
    RunRules growing (Ending env v) env (Inside env v) where
  blind := blind_growing
  parts hs hfields hv := .part hs hfields hv
  allOf hs hfields hform := allowsAllOf_growing fun hempty =>
    .noElement ⟨_, _, hs, hfields, hempty ▸ hform⟩
  tooDeep _ _ := .failure (by simp [definitionClasses, Failure.failureClass])

theorem Ending.failureOf {v : Value} {f : Failure} (h : Ending env v f) (name : String) :
    (failureOf name f).failureClass ∈ definitionClasses ∨
      (failureOf name f = .fault .noElement ∧ HoldsEmpty env v) := by
  cases h with
  | failure own =>
    left
    unfold Compile.failureOf
    split
    case h_5 => exact own
    all_goals exact List.mem_cons_self
  | fault reported =>
    rename_i fault
    cases fault with
    | noElement => exact reported.elim
    | tooLarge => exact reported.elim
    | _ => exact Or.inl List.mem_cons_self
  | noElement empty => exact Or.inr ⟨rfl, empty⟩

/--
**A definition that cannot be compiled is reported as such.** Whatever the schemas, the options, the
name and the value are, and whatever was compiled before, a definition that fails does so with a
failure of the program's own: the schema cannot be generated, is too deep or refers to a schema that
is not there. Otherwise somewhere inside the value stands an `allOf` without branches.
-/
theorem compileNamed_fails (env : Environment) (name : String) (v : Value) (p : Progress) {f : Failure}
    (h : ((compileNamed env name v).run p).1 = .error f) :
    f.failureClass ∈ definitionClasses ∨ (f = .fault .noElement ∧ HoldsEmpty env v) := by
  have hruns := compileSchema_runs (permits_ending env v) (runRules_inside env v) .self true false
  have hends := (hruns { p with session := { name := some name } }).2.2
  have hsession : (compileNamed env name v).run p =
      (inSession { name := some name } (compileSchema env v true false) (failureOf name)).run p := rfl
  rw [hsession, run_inSession] at h
  rcases hrun : ((compileSchema env v true false).run
    { p with session := { name := some name } }).1 with f' | e
  · rw [hrun] at h
    cases h
    exact (hends f' hrun).failureOf name
  · rw [hrun] at h
    cases h

/-- A union whose discriminator is a number. -/
def numberDiscriminator : Value :=
  .object [(.text "oneOf", .list [.object [], .object []]), (.text "discriminator", .int 5)]

theorem compileNamed_fails_discriminator : ∃ env p,
    Environment.ofSchemas [(.text "A", numberDiscriminator)] = .ok env ∧
    ((compileNamed env "A" numberDiscriminator).run p).1 = .error (.malformed "A") ∧
    Failure.failureClass (.malformed "A") ∈ definitionClasses := by
  obtain ⟨env, p, henv, hrun⟩ : ∃ env p,
      Environment.ofSchemas [(.text "A", numberDiscriminator)] = .ok env ∧
      ((compileNamed env "A" numberDiscriminator).run p).1 = .error (.malformed "A") :=
    ⟨_, ⟨{}, ⟨.empty .unbounded, .empty .unbounded⟩, []⟩, rfl, rfl⟩
  refine ⟨env, p, henv, hrun, ?_⟩
  rcases compileNamed_fails env "A" numberDiscriminator p hrun with hclass | ⟨hfault, -⟩
  · exact hclass
  · cases hfault

/-- A composition without branches. -/
def emptyComposition : Value := .object [(.text "allOf", .list [])]

/-- **The missing branch of a composition is not reported**, and it is met wherever it stands. -/
theorem compileNamed_noElement : ∃ env p f,
    Environment.ofSchemas [(.text "A", emptyComposition)] = .ok env ∧
    ((compileNamed env "A" emptyComposition).run p).1 = .error f ∧
    f.failureClass ∉ definitionClasses ∧ HoldsEmpty env emptyComposition :=
  ⟨_, ⟨{}, ⟨.empty .unbounded, .empty .unbounded⟩, []⟩, _, rfl, rfl, by decide,
    _, _, .self, rfl, rfl⟩

end SchemaForge.Compile
