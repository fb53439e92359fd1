import SchemaForge.Proofs.Compile.References
import SchemaForge.Proofs.Reference.Alias

/-!
# Deferred references

A reference is deferred if its target is, or leads back to, the schema that is being compiled. The
check looks at names, at aliases and at components, but for the references that compilation meets all
this comes down to reachability: they are edges of the reference graph, and so are the steps of
aliases.

Two things follow. Constants that are not deferred stand earlier in the order of the graph, so the
generated text can be read from top to bottom. And nothing is deferred without need.
-/

namespace SchemaForge

open Reference

/-! ## Environments -/

/-- A context that a configuration leads to, with overrides or without. -/
inductive Context.Built : Context → Prop where
  | config {c : Config} {ctx : Context} (h : Context.ofConfig c = .ok ctx) : Built ctx
  | override {ctx : Context} (o : Overrides) (h : Built ctx) : Built (ctx.override o)

/-- An environment of named schemas: with the graph of these schemas, and a context that a
configuration leads to. -/
structure Environment.Proper (env : Environment) (names : List String) : Prop where
  named : Named env.schemas names
  graph : Graph.ofSchemas env.schemas = .ok env.graph
  context : env.context.Built

theorem Environment.proper_of_make {schemas : Fields} {names : List String} {ctx : Context}
    {g : Graph} {env : Environment} (hnamed : Named schemas names)
    (hg : Graph.ofSchemas schemas = .ok g) (hctx : ctx.Built)
    (h : Environment.make schemas ctx g = .ok env) : env.Proper names := by
  obtain ⟨table, -, h⟩ := Outcome.bind_eq_ok.mp h
  cases h
  exact ⟨hnamed, hg, hctx⟩

/-- The views for requests and responses are environments of the same schemas. -/
theorem Environment.Proper.view {env env' : Environment} {names : List String}
    (h : env.Proper names) {option : OverridesOption} (hv : env.view option = .ok env') :
    env'.Proper names := by
  obtain ⟨ctx, hctx, hv⟩ := Outcome.bind_eq_ok.mp hv
  refine Environment.proper_of_make h.named h.graph ?_ hv
  cases option with
  | overrides o =>
    cases hctx
    exact .override o h.context
  | other v => cases hctx

/-- The environment of some schemas, with all options at their defaults. -/
def Environment.ofSchemas (schemas : Fields) : Except Failure Environment := do
  let context ← Context.ofConfig {}
  let graph ← Failure.lift (Graph.ofSchemas schemas)
  Failure.lift (Environment.make schemas context graph)

theorem lift_eq_ok {α : Type} {x : Except Fault α} {a : α} (h : Failure.lift x = .ok a) :
    x = .ok a := by
  cases x with
  | ok b =>
    cases h
    rfl
  | error f => cases h

/-- The environment of some schemas, with the options of a configuration. -/
def Environment.ofConfig (c : Config) (schemas : Fields) : Except Failure Environment := do
  let context ← Context.ofConfig c
  let graph ← Failure.lift (Graph.ofSchemas schemas)
  Failure.lift (Environment.make schemas context graph)

theorem Environment.proper_ofConfig {c : Config} {schemas : Fields} {names : List String}
    {env : Environment} (hnamed : Named schemas names) (h : Environment.ofConfig c schemas = .ok env) :
    env.Proper names := by
  obtain ⟨context, hctx, h⟩ := Outcome.bind_eq_ok.mp h
  obtain ⟨graph, hg, h⟩ := Outcome.bind_eq_ok.mp h
  exact Environment.proper_of_make hnamed (lift_eq_ok hg) (.config hctx) (lift_eq_ok h)

theorem Environment.proper_ofSchemas {schemas : Fields} {names : List String} {env : Environment}
    (hnamed : Named schemas names) (h : Environment.ofSchemas schemas = .ok env) :
    env.Proper names :=
  Environment.proper_ofConfig hnamed h

/-- The validator of date-times is a constructor without arguments, or checks a pattern. -/
theorem Context.Built.dateTime_cases {ctx : Context} (h : ctx.Built) :
    ctx.dateTime = zod "iso.datetime" [] ∨
      ∃ source, ctx.dateTime = (zod "string" []).andThen "regex" [.regex source] := by
  induction h with
  | override o _ ih => exact ih
  | @config c ctx h =>
    obtain ⟨_, -, h⟩ := Outcome.bind_eq_ok.mp h
    obtain ⟨_, -, h⟩ := Outcome.bind_eq_ok.mp h
    obtain ⟨strip, -, h⟩ := Outcome.bind_eq_ok.mp h
    obtain ⟨dateTime, hd, h⟩ := Outcome.bind_eq_ok.mp h
    cases h
    unfold DateTime.validator at hd
    split at hd
    · split at hd
      · split at hd
        · cases hd
          exact Or.inr ⟨_, rfl⟩
        · cases hd
      · cases hd
    · cases hd
      exact Or.inl rfl

/-- The validator of date-times has every condition on trees. -/
theorem Context.Built.holds_dateTime {ctx : Context} {T : Compile.TreeCondition} (h : ctx.Built) :
    T.Holds ctx.dateTime := by
  rcases h.dateTime_cases with h | ⟨source, h⟩
  · rw [h]
    exact T.zod_nil _
  · rw [h]
    exact (T.zod_nil _).andThen (by decide) (by simpa using T.regex _)

theorem Context.Built.meets_dateTime {ctx : Context} {G : Ref → Prop} (h : ctx.Built) :
    ctx.dateTime.Meets G :=
  h.holds_dateTime (T := Compile.meetsCondition G)

namespace Compile

variable {env : Environment} {names : List String} {X R r : String}

/-! ## References -/

/-- A reference to a named schema. -/
def refTo (name : String) : Value :=
  .object [(.text "$ref", .text ("#/components/schemas/" ++ name))]

/-- What a reference to `R` becomes in the session of `X`: it names the constant of the schema that
`R` stands for. -/
inductive RefersTo (env : Environment) (X R : String) : Expression → Prop where
  | deferred {r const type : String} (known : env.schemas.has R = true)
      (resolved : resolveAlias env.schemas R = .ok r) (named : env.constName r = .ok const)
      (defer : mustDefer env X R r = true) : RefersTo env X R (deferredRef const type)
  | plain {r const : String} (known : env.schemas.has R = true)
      (resolved : resolveAlias env.schemas R = .ok r) (named : env.constName r = .ok const)
      (defer : mustDefer env X R r = false) : RefersTo env X R (plainRef const)

/-- **A reference that is compiled refers to its target.** -/
theorem compileReference_same {ref : String} {top : Bool} :
    Same X (RefersTo env X R) (compileReference env ref R top)
      (compileReference env ref R top) := by
  refine Same.session.bind fun s hs => Same.ite (fun _ => Same.fail _) fun hknown => ?_
  refine Same.liftBind fun r hr => ?_
  rw [hs]
  have hknown : env.schemas.has R = true := by simpa using hknown
  have hdeferred : ∀ {const type : String}, env.constName r = .ok const →
      mustDefer env X R r = true → RefersTo env X R (deferredRef const type) :=
    fun hconst hdefer => .deferred hknown hr hconst hdefer
  refine Same.ite (fun _ => (Same.addDependency R).bind fun _ _ => ?_) fun _ => ?_
  all_goals
    refine Same.liftBind fun const hconst => Same.ite (fun hdefer => ?_) fun hdefer => ?_
    · refine Same.ite (fun _ => ?_) fun _ => .pure (hdeferred hconst hdefer)
      exact Same.liftBind fun type _ => .pure (hdeferred hconst hdefer)
    · exact .pure (.plain hknown hr hconst (by simpa using hdefer))

/-- **A reference along an edge is deferred exactly if its target reaches the schema itself.** -/
theorem mustDefer_iff (h : env.Proper names) (hedge : env.graph.Edge X R)
    (hr : resolveAlias env.schemas R = .ok r) :
    mustDefer env X R r = true ↔ env.graph.Reaches R X := by
  have hdesc := Graph.describes_of_ok h.named h.graph
  have hR : R ∈ names := h.named.has_iff.mp (hdesc.of_edge hedge).2
  unfold mustDefer
  rw [Bool.or_eq_true, Bool.or_eq_true, beq_iff_eq, beq_iff_eq, hdesc.inSameCycle_iff]
  constructor
  · rintro ((rfl | rfl) | ⟨-, hback⟩)
    · exact .refl
    · -- an alias reaches what it stands for
      exact (hdesc.resolveAlias h.named hR hr).1
    · exact hback.to_reflTransGen
  · intro hback
    rcases Relation.reflTransGen_iff_eq_or_transGen.mp hback with rfl | hback
    · exact Or.inl (Or.inl rfl)
    · exact Or.inr ⟨.single hedge, hback⟩

/-- The references that compilation of `X` meets: to the targets of its edges, as far as they are
schemas. -/
def OnEdge (env : Environment) (X R : String) : Prop :=
  env.schemas.has R = true → env.graph.Edge X R

/-- **What becomes of a reference that compilation meets is decided by reachability.** -/
theorem RefersTo.reached (h : env.Proper names) (hedge : OnEdge env X R) {e : Expression}
    (he : RefersTo env X R e) :
    ∃ r const, env.graph.Edge X R ∧ resolveAlias env.schemas R = .ok r ∧
      env.constName r = .ok const ∧
      ((env.graph.Reaches R X ∧ ∃ type, e = deferredRef const type) ∨
        (¬ env.graph.Reaches R X ∧ e = plainRef const)) := by
  cases he with
  | @deferred r const type hknown hr hconst hdefer =>
    have hback := (mustDefer_iff h (hedge hknown) hr).mp hdefer
    exact ⟨r, const, hedge hknown, hr, hconst, Or.inl ⟨hback, type, rfl⟩⟩
  | @plain r const hknown hr hconst hdefer =>
    refine ⟨r, const, hedge hknown, hr, hconst, Or.inr ⟨fun hback => ?_, rfl⟩⟩
    rw [(mustDefer_iff h (hedge hknown) hr).mpr hback] at hdefer
    cases hdefer

/-! ## References in a definition -/

/-- Where a reference in the definition of `X` comes from: an edge of the graph, whose target leads
back to `X` exactly if the reference is deferred. -/
def FromEdge (env : Environment) (X : String) : Ref → Prop
  | .plain const => ∃ R r, env.graph.Edge X R ∧ ¬ env.graph.Reaches R X ∧
      resolveAlias env.schemas R = .ok r ∧ env.constName r = .ok const
  | .deferred const _ => ∃ R r, env.graph.Edge X R ∧ env.graph.Reaches R X ∧
      resolveAlias env.schemas R = .ok r ∧ env.constName r = .ok const

theorem fromEdge_of_refersTo (h : env.Proper names) (hedge : OnEdge env X R) {e : Expression}
    (he : RefersTo env X R e) : e.Meets (FromEdge env X) := by
  obtain ⟨r, const, hedge, hr, hconst, ⟨hback, type, rfl⟩ | ⟨hback, rfl⟩⟩ := he.reached h hedge
  · exact Expression.meets_deferredRef.mpr ⟨R, r, hedge, hback, hr, hconst⟩
  · exact Expression.meets_plainRef.mpr ⟨R, r, hedge, hback, hr, hconst⟩

/-- **All references in a compiled definition come from edges.** -/
theorem fromEdge_of_compileNamed (h : env.Proper names) (hX : X ∈ names) {p q : Progress}
    {e : Expression} {s : Session}
    (he : (compileNamed env X (env.schemas.value X)).run p = (.ok (e, s), q)) :
    e.Meets (FromEdge env X) := by
  have hscope := (Graph.describes_of_ok h.named h.graph).scope hX
  have hsame : ReferSame X (OnEdge env X) (FromEdge env X) (compileReference env)
      (compileReference env) :=
    fun _ _ hedge => compileReference_same.mono fun _ he => fromEdge_of_refersTo h hedge he
  exact meets_compileNamedWith h.context.meets_dateTime hsame hscope he

/-! ## Constants in order -/

/-- What an alias stands for comes after it on the way, so it does not lead back if the alias does
not. -/
theorem idxOf_lt_of_edge (h : env.Proper names) (hedge : env.graph.Edge X R)
    (hr : resolveAlias env.schemas R = .ok r) (hback : ¬ env.graph.Reaches R X) :
    r ∈ names ∧ env.graph.order.idxOf r < env.graph.order.idxOf X := by
  have hdesc := Graph.describes_of_ok h.named h.graph
  obtain ⟨hX, hknown⟩ := hdesc.of_edge hedge
  obtain ⟨hRr, hmem⟩ := hdesc.resolveAlias h.named (h.named.has_iff.mp hknown) hr
  refine ⟨hmem, Graph.idxOf_lt_of_reaches h.named h.graph hX hmem (.head hedge hRr) ?_⟩
  exact fun hrX => hback (hRr.trans hrX)

/-- **Every constant in a compiled definition is defined before it is used: constants that are not
deferred stand before the schema in the order of the graph, and deferred ones are constants of the
document.** -/
theorem defined_before_use (h : env.Proper names) (hX : X ∈ names) {p q : Progress}
    {e : Expression} {s : Session}
    (he : (compileNamed env X (env.schemas.value X)).run p = (.ok (e, s), q)) :
    (∀ const, .plain const ∈ e.toNode.refs → ∃ Y ∈ names, env.constName Y = .ok const ∧
      env.graph.order.idxOf Y < env.graph.order.idxOf X) ∧
    ∀ const type, .deferred const type ∈ e.toNode.refs →
      ∃ Y ∈ names, env.constName Y = .ok const := by
  have hdesc := Graph.describes_of_ok h.named h.graph
  have hedges := fromEdge_of_compileNamed h hX he
  refine ⟨fun const hc => ?_, fun const type hc => ?_⟩
  · obtain ⟨R, r, hedge, hback, hr, hconst⟩ := hedges _ hc
    obtain ⟨hmem, hlt⟩ := idxOf_lt_of_edge h hedge hr hback
    exact ⟨r, hmem, hconst, hlt⟩
  · obtain ⟨R, r, hedge, -, hr, hconst⟩ := hedges _ hc
    have hknown := h.named.has_iff.mp (hdesc.of_edge hedge).2
    exact ⟨r, (hdesc.resolveAlias h.named hknown hr).2, hconst⟩

theorem defined_before_use_cycle :
    ∃ env p q e s, Environment.ofSchemas Graph.cycleSchemas = .ok env ∧
      (compileNamed env "C" (env.schemas.value "C")).run p = (.ok (e, s), q) ∧
      e.toNode.refs = [.plain "aSchema"] ∧
      ∃ Y ∈ ["A", "B", "C"], env.constName Y = .ok "aSchema" ∧
        env.graph.order.idxOf Y < env.graph.order.idxOf "C" := by
  have hnamed : Named Graph.cycleSchemas ["A", "B", "C"] := ⟨by decide, by decide⟩
  obtain ⟨env, henv, p, q, e, s, hrun, hrefs⟩ :
      ∃ env, Environment.ofSchemas Graph.cycleSchemas = .ok env ∧ ∃ p q e s,
        (compileNamed env "C" (env.schemas.value "C")).run p = (.ok (e, s), q) ∧
        e.toNode.refs = [.plain "aSchema"] :=
    ⟨_, rfl, ⟨{}, ⟨.empty .unbounded, .empty .unbounded⟩, []⟩, _, _, _, rfl, by decide⟩
  have hproper := Environment.proper_ofSchemas hnamed henv
  refine ⟨env, p, q, e, s, henv, hrun, hrefs, ?_⟩
  exact (defined_before_use hproper (by decide) hrun).1 "aSchema" (by simp [hrefs])

/-! ## Nothing is deferred without need -/

/-- A reference to `R` was compiled as reachability asks: deferred if `R` leads back to `X`, and
plain otherwise. -/
def AsReached (env : Environment) (X R : String) (e : Expression) : Prop :=
  (env.graph.Reaches R X ∧ ∃ const type, e = deferredRef const type) ∨
    (¬ env.graph.Reaches R X ∧ ∃ const, e = plainRef const)

theorem asReached_of_refersTo (h : env.Proper names) (hedge : OnEdge env X R) {e : Expression}
    (he : RefersTo env X R e) : AsReached env X R e := by
  obtain ⟨r, const, -, -, -, ⟨hback, type, rfl⟩ | ⟨hback, rfl⟩⟩ := he.reached h hedge
  · exact Or.inl ⟨hback, const, type, rfl⟩
  · exact Or.inr ⟨hback, const, rfl⟩

/-- **Every reference that compilation meets is compiled as reachability asks: whatever were done
with others, the definition of a schema would be compiled in the same way.** -/
theorem compileNamedWith_asReached (h : env.Proper names) (hX : X ∈ names) {refer : Refer}
    (hrefer : ∀ ref R top p, p.session.name = some X →
      (∀ e q, (compileReference env ref R top).run p = (.ok e, q) → AsReached env X R e) →
      (refer ref R top).run p = (compileReference env ref R top).run p) :
    compileNamedWith env refer X (env.schemas.value X) =
      compileNamed env X (env.schemas.value X) := by
  have hscope := (Graph.describes_of_ok h.named h.graph).scope hX
  have hsame : ReferSame X (OnEdge env X) (fun _ => True) refer (compileReference env) := by
    intro ref top hedge p hp
    have hspec : Same X (RefersTo env X (Naming.targetName ref))
        (compileReference env ref (Naming.targetName ref) top)
        (compileReference env ref (Naming.targetName ref) top) := compileReference_same
    -- whatever compilation meets is an edge, so it is compiled as reachability asks
    obtain ⟨-, hok⟩ := hspec p hp
    have hagree := hrefer ref (Naming.targetName ref) top p hp fun e q he =>
      asReached_of_refersTo h hedge (hok e q he).2
    refine ⟨hagree, fun e q he => ?_⟩
    rw [hagree] at he
    exact ⟨(hok e q he).1, fun _ _ => trivial⟩
  exact compileNamedWith_eq (fun _ _ => trivial) hsame hscope

/-- A reference into a cycle that the schema itself is not part of. -/
theorem plain_of_outside (h : env.Proper names) (hedge : env.graph.Edge X R)
    (hcircular : env.graph.isCircular R = true) (hout : env.graph.inSameCycle X R = false)
    {e : Expression} (he : RefersTo env X R e) : ∃ const, e = plainRef const := by
  have hdesc := Graph.describes_of_ok h.named h.graph
  have hback : ¬ env.graph.Reaches R X := by
    intro hback
    have hcycle := (hdesc.circular_iff R).mp (by simpa [Graph.isCircular] using hcircular)
    have hin := (hdesc.inSameCycle_iff X R).mpr
      ⟨.single hedge, Relation.TransGen.trans_left hcycle hback⟩
    rw [hin] at hout
    cases hout
  rcases asReached_of_refersTo h (fun _ => hedge) he with ⟨hreach, -⟩ | ⟨-, hplain⟩
  · exact absurd hreach hback
  · exact hplain

/--
**References are deferred exactly for cycles.** While the definition of `X` is compiled, every
reference to a known schema is deferred if and only if its target reaches `X`: compilation does not
notice what becomes of references that are compiled in any other way. The tree says the same of the
references that are left in it. Without cycles there is nothing deferred in a tree, and a reference
into a cycle from outside is plain.
-/
theorem deferred_iff_reaches (h : env.Proper names) (hX : X ∈ names) :
    (∀ refer : Refer,
      (∀ ref R top p, p.session.name = some X →
        (∀ e q, (compileReference env ref R top).run p = (.ok e, q) → AsReached env X R e) →
        (refer ref R top).run p = (compileReference env ref R top).run p) →
      compileNamedWith env refer X (env.schemas.value X) =
        compileNamed env X (env.schemas.value X)) ∧
    (∀ p q e s, (compileNamed env X (env.schemas.value X)).run p = (.ok (e, s), q) →
      e.Meets (FromEdge env X) ∧
      ((∀ n, ¬ env.graph.ReachesProperly n n) →
        ∀ const type, .deferred const type ∉ e.toNode.walk)) ∧
    ∀ ref R top p q e, p.session.name = some X →
      (compileReference env ref R top).run p = (.ok e, q) → env.graph.Edge X R →
      env.graph.isCircular R = true → env.graph.inSameCycle X R = false →
      ∃ const, e = plainRef const := by
  refine ⟨fun refer hrefer => compileNamedWith_asReached h hX hrefer, ?_, ?_⟩
  · intro p q e s he
    have hedges := fromEdge_of_compileNamed h hX he
    refine ⟨hedges, fun hacyclic const type hmem => ?_⟩
    obtain ⟨R, r, hedge, hback, -⟩ := hedges _ (((Node.walk_shows e.toNode).2 const type).mp hmem)
    exact hacyclic X (Relation.TransGen.head' hedge hback)
  · intro ref R top p q e hp he hedge hcircular hout
    exact plain_of_outside h hedge hcircular hout ((compileReference_same p hp).2 e q he).2

theorem deferred_iff_reaches_cycle :
    ∃ env p q e s, Environment.ofSchemas Graph.cycleSchemas = .ok env ∧
      (compileNamed env "B" (env.schemas.value "B")).run p = (.ok (e, s), q) ∧
      e.toNode.refs = [.deferred "aSchema" "z.ZodTypeAny"] ∧ e.Meets (FromEdge env "B") := by
  have hnamed : Named Graph.cycleSchemas ["A", "B", "C"] := ⟨by decide, by decide⟩
  obtain ⟨env, henv, p, q, e, s, hrun, hrefs⟩ :
      ∃ env, Environment.ofSchemas Graph.cycleSchemas = .ok env ∧ ∃ p q e s,
        (compileNamed env "B" (env.schemas.value "B")).run p = (.ok (e, s), q) ∧
        e.toNode.refs = [.deferred "aSchema" "z.ZodTypeAny"] :=
    ⟨_, rfl, ⟨{}, ⟨.empty .unbounded, .empty .unbounded⟩, []⟩, _, _, _, rfl, by decide⟩
  have hproper := Environment.proper_ofSchemas hnamed henv
  refine ⟨env, p, q, e, s, henv, hrun, hrefs, ?_⟩
  exact ((deferred_iff_reaches hproper (by decide)).2.1 p q e s hrun).1

end Compile

end SchemaForge
