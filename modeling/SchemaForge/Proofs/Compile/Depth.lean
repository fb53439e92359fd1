import SchemaForge.Proofs.Compile.Extent
import SchemaForge.Proofs.Compile.Failures
import SchemaForge.Proofs.Compile.Laziness

/-!
# The limit on depth

A limit on depth only ever ends a compilation, and it says nothing about what comes out of one that
succeeds. What succeeds with some levels is the same with more of them: the two runs are compared
step by step, and the first may only fail for want of levels (`compileWithin_deeper`).

As many levels as the extent of a schema are always enough (`compileWithin_fits`), since the parts of
a schema go less far down than the schema and references are not followed.
-/

namespace SchemaForge

/-- A count is within a limit. -/
def Limit.Admits : Limit → Nat → Prop
  | .atMost limit, n => n ≤ limit
  | .unbounded, _ => True

/-- The environment with another limit on depth. -/
def Environment.withMaxDepth (env : Environment) (d : Value) : Environment :=
  { env with context := { env.context with maxDepth := d } }

/-- It is what is made of the same schemas with this limit in the options. -/
theorem Environment.make_withMaxDepth (schemas : Fields) (ctx : Context) (graph : Reference.Graph)
    (d : Value) : make schemas { ctx with maxDepth := d } graph =
      (make schemas ctx graph).map (·.withMaxDepth d) := by
  have hnames : NameTable.ofSchemas { ctx with maxDepth := d } schemas =
      NameTable.ofSchemas ctx schemas := rfl
  unfold make
  rw [hnames]
  cases NameTable.ofSchemas ctx schemas <;> rfl

namespace Compile

open Comparison

variable {env env' : Environment} {refer : Refer} {v : Value} {top branch : Bool}
  {levels levels' : Nat}

/-! ## Enough levels -/

theorem permits_fits : Permits fun f => ¬ IsTooDeep f where
  fault := by
    rintro f - ⟨_, _, h⟩
    cases h
  notASchema := by
    rintro kind owner ⟨_, _, h⟩
    cases h
  unresolved := by
    rintro ref path owner ⟨_, _, h⟩
    cases h

/-- **By induction on the levels left: as many levels as the extent of a schema are enough.** -/
theorem compileWithin_fits (env : Environment) : ∀ (levels : Nat) (v : Value) (top branch : Bool),
    v.extent ≤ levels →
    Runs growing (fun f => ¬ IsTooDeep f) (compileWithin env (compileReference env) top branch levels v) := by
  intro levels
  induction levels with
  | zero =>
    intro v top branch hv
    have hone := v.one_le_extent
    omega
  | succ levels ih =>
    intro v top branch hv
    by_cases hobject : ∃ schema, v = .object schema
    · obtain ⟨schema, rfl⟩ := hobject
      refine Keeps.nested (compileCached_runs permits_fits blind_growing (compileFields_runs permits_fits
        (fun _ _ _ => compileReference_runs permits_fits) ?_ ?_ top branch))
      · intro fields hfields w hw branch
        by_cases hpart : ∃ part, w = .object part
        · obtain ⟨part, rfl⟩ := hpart
          have hless : (Value.object part).extent < 1 + Fields.extent fields := extent_part_lt hw rfl
          have hvisible := extent_visibleFields hfields
          refine ih _ false branch ?_
          rw [Value.extent] at hv
          omega
        · exact compileWithin_runs_of_ne permits_fits (not_exists.mp hpart) levels false branch
      · refine fun fields branches _ _ => allowsAllOf_growing fun _ => ?_
        rintro ⟨_, _, h⟩
        cases h
    · exact compileWithin_runs_of_ne permits_fits (not_exists.mp hobject) _ top branch

/-! ## More levels -/

/-- Runs in a session with a name, of which the first may want levels that the second has. -/
def untilTooDeep : Comparison := named.excusing IsTooDeep

theorem untilTooDeep_steady : untilTooDeep.Steady := named_steady.excusing

/-- **By induction on the levels: with more of them a schema is compiled as before.** -/
theorem compileWithin_deeper (henv : SameOptions env env') (h : levels ≤ levels') (v : Value)
    (top branch : Bool) :
    untilTooDeep.Alike Eq (compileWithin env (compileReference env) top branch levels v)
      (compileWithin env' (compileReference env') top branch levels' v) := by
  induction levels generalizing levels' v top branch with
  | zero =>
    by_cases hv : ∃ schema, v = .object schema
    · obtain ⟨schema, rfl⟩ := hv
      exact fun p q _ => .left (Or.inr ⟨_, _, rfl⟩)
    · rw [compileWithin_leaf (not_exists.mp hv), compileWithin_leaf (not_exists.mp hv)]
      exact compileLeaf_alike untilTooDeep_steady v
  | succ levels ih =>
    obtain ⟨levels', rfl⟩ : ∃ n, levels' = n + 1 := ⟨levels' - 1, by omega⟩
    by_cases hv : ∃ schema, v = .object schema
    · obtain ⟨schema, rfl⟩ := hv
      refine untilTooDeep_steady.nested ?_
      have hrefer : ReferAlike untilTooDeep True (compileReference env) (compileReference env') := by
        rw [← henv.refer]
        exact compileReference_alike untilTooDeep_steady
      have hfields : untilTooDeep.Alike Eq
          (compileFields env (compileReference env) (within env (compileReference env) levels) schema
            top branch)
          (compileFields env' (compileReference env') (within env' (compileReference env') levels')
            schema top branch) :=
        (compileFields_alike untilTooDeep_steady henv.reads hrefer
          (fun _ => by rw [henv.default]) fun fields _ =>
            innerAlike_of_eq fun w branch _ => ih (Nat.le_of_succ_le_succ h) w false branch).mono
          fun e e' he => he.eq trivial
      have hkey := henv.key schema top branch
      rintro p q ⟨rfl, hp⟩
      cases hwritten : cacheKey env schema top branch with
      | error f =>
        rw [run_compileCached_error hwritten, run_compileCached_error (hkey.symm.trans hwritten)]
        exact .error ⟨rfl, hp⟩
      | ok key =>
        rw [run_compileCached_skip hwritten (by rw [hp]; rfl),
          run_compileCached_skip (hkey.symm.trans hwritten) (by rw [hp]; rfl)]
        exact hfields p p ⟨rfl, hp⟩
    · rw [compileWithin_leaf (not_exists.mp hv), compileWithin_leaf (not_exists.mp hv)]
      exact compileLeaf_alike untilTooDeep_steady v

theorem sameOptions_withMaxDepth (env : Environment) (d : Value) :
    SameOptions env (env.withMaxDepth d) :=
  ⟨⟨rfl, rfl, rfl, rfl, rfl, rfl, rfl⟩, rfl, rfl, fun _ _ _ => rfl⟩

/-- **Where the levels are enough, more of them make no difference.** -/
theorem run_compileWithin_eq (henv : SameOptions env env') (h : levels ≤ levels') {p : Progress}
    (hp : p.session.name.isSome = true)
    (hfits : ∀ f, ((compileWithin env (compileReference env) top branch levels v).run p).1 = .error f →
      ¬ IsTooDeep f) :
    (compileWithin env' (compileReference env') top branch levels' v).run p =
      (compileWithin env (compileReference env) top branch levels v).run p := by
  have hagree := compileWithin_deeper henv h v top branch p p ⟨rfl, hp⟩
  generalize (compileWithin env (compileReference env) top branch levels v).run p = r at hagree hfits ⊢
  generalize (compileWithin env' (compileReference env') top branch levels' v).run p = r' at hagree ⊢
  cases hagree with
  | ok value linked => rw [value, linked.1]
  | error linked => rw [linked.1]
  | left excused => exact absurd (excused.resolve_left id) (hfits _ rfl)
  | right excused => exact absurd excused id

/-- What succeeds does so with more levels, and with as many as the extent of the schema. -/
theorem run_compileWithin_ok (henv : SameOptions env env')
    (h : levels ≤ levels' ∨ v.extent ≤ levels') {p q : Progress} {e : Expression}
    (hp : p.session.name.isSome = true)
    (hok : (compileWithin env (compileReference env) top branch levels v).run p = (.ok e, q)) :
    (compileWithin env' (compileReference env') top branch levels' v).run p = (.ok e, q) := by
  by_cases hmore : levels ≤ levels'
  · rw [run_compileWithin_eq henv hmore hp, hok]
    intro f hf
    rw [hok] at hf
    cases hf
  · have hfits := compileWithin_fits env' levels' v top branch (h.resolve_left hmore) p
    rw [← hok]
    exact (run_compileWithin_eq henv.symm (Nat.le_of_not_le hmore) hp hfits.2.2).symm

/-! ## Limits -/

/-- A larger limit leaves more levels, or at least enough of them. -/
theorem levelsFor_le_or (h : ∀ n, env.context.depthLimit.Admits n → env'.context.depthLimit.Admits n)
    (depth : Nat) (v : Value) :
    levelsFor env depth v ≤ levelsFor env' depth v ∨ v.extent ≤ levelsFor env' depth v := by
  unfold levelsFor
  generalize env.context.depthLimit = limit at h
  generalize env'.context.depthLimit = limit' at h
  cases limit' with
  | unbounded => exact Or.inr v.extent_le_weight
  | atMost n' =>
    left
    cases limit with
    | atMost n =>
      have hle : n ≤ n' := h n (Nat.le_refl n)
      show n - depth ≤ n' - depth
      omega
    | unbounded =>
      have hle : n' + 1 ≤ n' := h (n' + 1) trivial
      omega

theorem depthLimit_int (env : Environment) (n : Int) :
    (env.withMaxDepth (.int n)).context.depthLimit = .atMost n.toNat := by
  have hlimit : Limit.notAbove (.ofInt n) = .atMost n.toNat := by
    simp [Limit.notAbove, Quantity.ofInt]
  exact hlimit

/-- A schema without more nodes than the limit admits has levels enough. -/
theorem extent_le_levelsFor (h : env.context.depthLimit.Admits v.weight) :
    v.extent ≤ levelsFor env 0 v := by
  have hle := v.extent_le_weight
  unfold levelsFor
  cases hlimit : env.context.depthLimit with
  | unbounded => exact hle
  | atMost n =>
    rw [hlimit] at h
    exact hle.trans h

theorem isTooDeep_of_class {f : Failure} (h : f.failureClass = .depth) : IsTooDeep f := by
  cases f with
  | tooDeep limit owner => exact ⟨limit, owner, rfl⟩
  | fileNotFound role path => cases role <;> cases h
  | invalidJson role => cases role <;> cases h
  | unreadable role => cases role <;> cases h
  | notAMapping role kind => cases role <;> cases h
  | _ => cases h

/-- What is reported for a definition is of another class if its levels were enough. -/
theorem failureClass_of_fits {f : Failure} (h : ¬ IsTooDeep f) (name : String) :
    (failureOf name f).failureClass ≠ .depth := by
  unfold failureOf
  split
  case h_5 => exact fun hclass => h (isTooDeep_of_class hclass)
  all_goals nofun

/--
**The limit on depth is sound and monotone.** Take any schemas and options, a name and a value, and
progress to start from in which patterns have their own escapes, as after any calls of a generator. If
the definition compiles under one limit on depth, then it does so under every limit that admits as much,
to the same expression with the same session. If the limit admits as many levels as the value has nodes,
the definition does not fail for its depth, however the schemas refer to each other.
-/
theorem depth_limit_guards (env : Environment) (d : Value) (name : String) (v : Value) {p p' : Progress}
    (hp : EscapesOwn p.caches.patterns) (hp' : EscapesOwn p'.caches.patterns) :
    ((∀ n, env.context.depthLimit.Admits n → (env.withMaxDepth d).context.depthLimit.Admits n) →
      ∀ r, ((compileNamed env name v).run p).1 = .ok r →
        ((compileNamed (env.withMaxDepth d) name v).run p').1 = .ok r) ∧
    (env.context.depthLimit.Admits v.weight →
      ∀ f, ((compileNamed env name v).run p).1 = .error f → f.failureClass ≠ .depth) := by
  refine ⟨fun hadmits r hr => ?_, fun hadmits f hf => ?_⟩
  · rw [run_compileNamed_eq hp' hp, run_compileNamed, run_compileSchema]
    rw [run_compileNamed, run_compileSchema] at hr
    have hlevels := levelsFor_le_or hadmits 0 v
    generalize hrun : (compileWithin env (compileReference env) true false (levelsFor env 0 v) v).run
      { p with session := { name := some name } } = result at hr
    obtain ⟨_ | e, q⟩ := result
    · cases hr
    · have hmore := run_compileWithin_ok (sameOptions_withMaxDepth env d) hlevels rfl hrun
      rw [hmore]
      exact hr
  · rw [run_compileNamed, run_compileSchema] at hf
    have hfits := (compileWithin_fits env _ v true false (extent_le_levelsFor hadmits)
      { p with session := { name := some name } }).2.2
    generalize hrun : (compileWithin env (compileReference env) true false (levelsFor env 0 v) v).run
      { p with session := { name := some name } } = result at hf hfits
    obtain ⟨f' | e, q⟩ := result
    · cases hf
      exact failureClass_of_fits (hfits f' rfl) name
    · cases hf

/-- A list of references to a schema. -/
def listOf (name : String) : Value :=
  .object [(.text "type", .text "array"),
    (.text "items", .object [(.text "$ref", .text ("#/components/schemas/" ++ name))])]

/-- Two levels are enough for a list of schemas that lead back to it. With as many levels as it has
nodes, a list of nothing known fails, but not for its depth. -/
theorem depth_limit_guards_list :
    ∃ env r f, Environment.ofSchemas Reference.Graph.cycleSchemas = .ok env ∧
      ((compileNamed (env.withMaxDepth (.int 2)) "B" (listOf "A")).run ⟨{}, env.caches, []⟩).1 = .ok r ∧
      ((compileNamed (env.withMaxDepth (.int 9)) "B" (listOf "A")).run ⟨{}, env.caches, []⟩).1 =
        .ok r ∧
      (listOf "X").weight = 4 ∧
      ((compileNamed (env.withMaxDepth (.int 4)) "B" (listOf "X")).run ⟨{}, env.caches, []⟩).1 =
        .error f ∧ f.failureClass ≠ .depth := by
  obtain ⟨env, r, f, henv, hr, hf⟩ : ∃ env r f,
      Environment.ofSchemas Reference.Graph.cycleSchemas = .ok env ∧
      ((compileNamed (env.withMaxDepth (.int 2)) "B" (listOf "A")).run ⟨{}, env.caches, []⟩).1 =
        .ok r ∧
      ((compileNamed (env.withMaxDepth (.int 4)) "B" (listOf "X")).run ⟨{}, env.caches, []⟩).1 =
        .error f := ⟨_, _, _, rfl, rfl, rfl⟩
  have hown : EscapesOwn (Progress.mk {} env.caches []).caches.patterns := escapesOwn_start env
  have hmore :=
    (depth_limit_guards (env.withMaxDepth (.int 2)) (.int 9) "B" (listOf "A") hown hown).1
  have hclass :=
    (depth_limit_guards (env.withMaxDepth (.int 4)) (.int 9) "B" (listOf "X") hown hown).2
  refine ⟨env, r, f, henv, hr, hmore ?_ r hr, rfl, hf, hclass ?_ f hf⟩
  · intro n hn
    rw [depthLimit_int] at hn ⊢
    exact Nat.le_trans hn (show 2 ≤ 9 by omega)
  · rw [depthLimit_int]
    exact Nat.le_refl 4

end Compile

end SchemaForge
