import Mathlib.Data.List.Find
import SchemaForge.Generation
import SchemaForge.Proofs.Compile.Deferral
import SchemaForge.Proofs.Compile.History

/-!
# Generation in any order

What a definition becomes does not depend on what was compiled before it. So the definitions of a
document are each what they are on their own, and the order in which the schemas are compiled only
shows in the order of the list.
-/

namespace SchemaForge

/-! ## Reporting computations that give the same -/

namespace Logged

variable {α α' β β' : Type} {Q : α → α' → Prop} {R : β → β' → Prop}

theorem run_bind_ok {a : Logged α} {f : α → Logged β} {l l' : List LogRecord} {x : α}
    (h : a.run l = (.ok x, l')) : (a >>= f).run l = (f x).run l' := by
  have hrun : (a >>= f).run l = (ExceptT.bindCont f (a.run l).1).run (a.run l).2 := rfl
  rw [hrun, h]
  rfl

theorem run_bind_error {a : Logged α} {f : α → Logged β} {l l' : List LogRecord} {e : Failure}
    (h : a.run l = (.error e, l')) : (a >>= f).run l = (.error e, l') := by
  have hrun : (a >>= f).run l = (ExceptT.bindCont f (a.run l).1).run (a.run l).2 := rfl
  rw [hrun, h]
  rfl

/-- Two computations end alike, whatever was reported before. -/
def Alike (Q : α → α' → Prop) (a : Logged α) (b : Logged α') : Prop :=
  ∀ l l', Outcome.Paired Q (a.run l).1 (b.run l').1

namespace Alike

variable {a : Logged α} {b : Logged α'}

theorem pure {x : α} {y : α'} (h : Q x y) : Alike Q (Pure.pure x) (Pure.pure y) :=
  fun _ _ => .ok h

theorem bind {f : α → Logged β} {g : α' → Logged β'} (h : Alike Q a b)
    (hfg : ∀ x y, Q x y → Alike R (f x) (g y)) : Alike R (a >>= f) (b >>= g) := by
  intro l l'
  have hab := h l l'
  rcases ha : a.run l with ⟨r, m⟩
  rcases hb : b.run l' with ⟨r', m'⟩
  rw [ha, hb] at hab
  cases hab with
  | ok hxy =>
    rw [run_bind_ok ha, run_bind_ok hb]
    exact hfg _ _ hxy m m'
  | error =>
    rw [run_bind_error ha, run_bind_error hb]
    exact .error

theorem report (records records' : List LogRecord) :
    Alike Eq (Logged.report records) (Logged.report records') := fun _ _ => .ok rfl

theorem lift {x : Except Fault α} : Alike Eq (liftM x : Logged α) (liftM x) := by
  cases x with
  | ok v => exact pure rfl
  | error f => exact fun _ _ => .error

theorem liftFailure {x : Except Failure α} : Alike Eq (liftM x : Logged α) (liftM x) := by
  cases x with
  | ok v => exact pure rfl
  | error f => exact fun _ _ => .error

end Alike

end Logged

namespace Generator

open Compile

variable {env : Environment} {name : String} {caches caches' : Caches}

/-- The schemas that have a text for a name. -/
def named (schemas : Fields) : List (String × Value) :=
  schemas.filterMap fun f =>
    match f.1 with
    | .text name => some (name, f.2)
    | _ => none

/-- What becomes of one schema if it is compiled first. -/
def outcome (g : Generator) (caches : Caches) (schema : String × Value) :
    Except Failure Definition :=
  (g.define caches schema.1 schema.2).result.1.map (·.1)

/-- `run`, with other caches to begin with and another order of the schemas. -/
def runFrom (g : Generator) (caches : Caches) (schemas : Fields) : Logged Generation := do
  let definitions ← g.defineAll caches schemas
  return { definitions, order := g.graph.order }

theorem nodup_named {schemas : Fields} (hnodup : schemas.names.Nodup) :
    ((named schemas).map Prod.fst).Nodup := by
  have hnames : (named schemas).map Prod.fst = schemas.names.filterMap fun n =>
      match n with
      | .text name => some name
      | _ => none := by
    unfold named Fields.names
    rw [List.map_filterMap, List.filterMap_map]
    congr 1
    funext f
    obtain ⟨name, v⟩ := f
    cases name <;> rfl
  rw [hnames]
  refine hnodup.filterMap fun n n' name hn hn' => ?_
  cases n <;> cases n' <;> simp_all

/-- Among definitions of different names, each is found in any order. -/
theorem find?_perm {r r' : Generation} (hperm : r.definitions.Perm r'.definitions)
    (hnodup : (r'.definitions.map Definition.name).Nodup) (name : String) :
    r.find? name = r'.find? name := by
  refine (List.find?_eq_find?_of_perm hperm.symm fun d hd d' hd' => ?_).symm
  refine List.inj_on_of_nodup_map hnodup hd.1 hd'.1 ?_
  rw [eq_of_beq hd.2, eq_of_beq hd'.2]

/-! ## Single definitions -/

/-- Two definitions of one name, with caches in which patterns have their own escapes. -/
structure DefinedAlike (name : String) (r r' : Definition × Caches) : Prop where
  definition : r.1 = r'.1
  name : r.1.name = name
  own : EscapesOwn r.2.patterns
  own' : EscapesOwn r'.2.patterns

theorem commentOf_alike (schema : Value) :
    Logged.Alike Eq (commentOf env name schema) (commentOf env name schema) :=
  (Logged.Alike.report _ _).bind fun _ _ _ => .pure rfl

theorem defineEnum_alike {style : EnumStyle} {const type : String} {schema : Value}
    {values : List Value} :
    Logged.Alike (fun d d' => d = d' ∧ d.name = name)
      (defineEnum env style name const type schema values)
      (defineEnum env style name const type schema values) := by
  refine Logged.Alike.lift.bind fun fields fields' hf => ?_
  subst hf
  refine (commentOf_alike schema).bind fun comment comment' hc => ?_
  subst hc
  exact .pure ⟨rfl, rfl⟩

section

variable (h : EscapesOwn caches.patterns) (h' : EscapesOwn caches'.patterns)
include h h'

theorem defineSchema_alike {const type : String} {schema : Value} :
    Logged.Alike (DefinedAlike name) (defineSchema env caches name const type schema)
      (defineSchema env caches' name const type schema) := by
  have hresult : ((compileNamed env name schema).run { session := {}, caches }).1 =
      ((compileNamed env name schema).run { session := {}, caches := caches' }).1 :=
    run_compileNamed_eq h h' name schema
  have hown : ∀ {caches : Caches}, EscapesOwn caches.patterns →
      EscapesOwn ((compileNamed env name schema).run { session := {}, caches }).2.caches.patterns :=
    fun h => Call.escapesOwn { env, task := .named name schema } h
  replace h := hown h
  replace h' := hown h'
  unfold defineSchema
  generalize (compileNamed env name schema).run { session := {}, caches } = r at hresult h ⊢
  generalize (compileNamed env name schema).run { session := {}, caches := caches' } = r'
    at hresult h' ⊢
  obtain ⟨result, progress⟩ := r
  obtain ⟨result', progress'⟩ := r'
  obtain rfl : result = result' := hresult
  refine (Logged.Alike.report _ _).bind fun _ _ _ => ?_
  refine Logged.Alike.liftFailure.bind fun r r' hr => ?_
  subst hr
  refine (commentOf_alike schema).bind fun comment comment' hc => ?_
  subst hc
  exact .pure ⟨rfl, rfl, h, h'⟩

/-- **The definition of a schema is the same from all caches that calls can lead to.** -/
theorem define_alike (g : Generator) {schema : Value} :
    Logged.Alike (DefinedAlike name) (g.define caches name schema) (g.define caches' name schema) := by
  refine (Logged.Alike.report _ _).bind fun _ _ _ => ?_
  refine Logged.Alike.lift.bind fun const const' hconst => ?_
  refine Logged.Alike.lift.bind fun type type' htype => ?_
  refine Logged.Alike.lift.bind fun form form' hform => ?_
  subst hconst htype hform
  split
  · refine defineEnum_alike.bind fun d d' hd => ?_
    obtain ⟨rfl, hname⟩ := hd
    exact .pure ⟨rfl, hname, h, h'⟩
  · exact defineSchema_alike h h'

/-! ## All definitions -/

/-- **Schemas compiled one after another become what each becomes on its own.** -/
theorem run_defineAll (g : Generator) (schemas : Fields) (l : List LogRecord) :
    ((g.defineAll caches schemas).run l).1 = (named schemas).mapM (g.outcome caches') := by
  induction schemas generalizing caches l with
  | nil => rfl
  | cons f rest ih =>
    obtain ⟨name, schema⟩ := f
    cases name with
    | text name =>
      have hdefine : Outcome.Paired (DefinedAlike name) ((g.define caches name schema).run l).1
          ((g.define caches' name schema).run []).1 := define_alike h h' g l []
      have hnamed : named ((.text name, schema) :: rest) = (name, schema) :: named rest := rfl
      have hfirst : g.outcome caches' (name, schema) =
          ((g.define caches' name schema).run []).1.map (·.1) := rfl
      rw [hnamed, List.mapM_cons, hfirst]
      unfold defineAll
      rcases hr : (g.define caches name schema).run l with ⟨r, m⟩
      rcases hr' : (g.define caches' name schema).run [] with ⟨r', m'⟩
      rw [hr, hr'] at hdefine
      cases hdefine with
      | error =>
        rw [Logged.run_bind_error hr]
        rfl
      | @ok d d' hd =>
        rw [Logged.run_bind_ok hr]
        have hrest := ih hd.own m
        rcases hds : (g.defineAll d.2 rest).run m with ⟨ds, m''⟩
        rw [hds] at hrest
        show (((g.defineAll d.2 rest) >>= fun ds => pure (d.1 :: ds) : Logged _).run m).1 =
          ((named rest).mapM (g.outcome caches') >>= fun ds => pure (d'.1 :: ds))
        rw [← hrest, ← hd.definition]
        cases ds with
        | error e =>
          rw [Logged.run_bind_error hds]
          rfl
        | ok ds =>
          rw [Logged.run_bind_ok hds]
          rfl
    | _ => exact ih h l

omit h in
theorem name_of_outcome {g : Generator} {schema : String × Value} {d : Definition}
    (hd : g.outcome caches' schema = .ok d) : d.name = schema.1 := by
  obtain ⟨r, hr, rfl⟩ := Outcome.map_eq_ok.mp hd
  have hself : Outcome.Paired (DefinedAlike schema.1) ((g.define caches' schema.1 schema.2).run []).1
      ((g.define caches' schema.1 schema.2).run []).1 := define_alike h' h' g [] []
  have hrun : ((g.define caches' schema.1 schema.2).run []).1 = .ok r := hr
  rw [hrun] at hself
  cases hself with
  | ok hd => exact hd.name

omit h in
/-- Definitions have the names of their schemas. -/
theorem names_of_outcomes {g : Generator} {schemas : List (String × Value)} {ds : List Definition}
    (hds : schemas.mapM (g.outcome caches') = .ok ds) :
    ds.map Definition.name = schemas.map Prod.fst := by
  have hall := Outcome.forall₂_of_mapM hds
  clear hds
  induction hall with
  | nil => rfl
  | cons hd _ ih => rw [List.map_cons, List.map_cons, name_of_outcome h' hd, ih]

/-- **Compiled in any order, all schemas give the same definitions, or some schema fails.** -/
theorem runFrom_perm (g : Generator) {schemas schemas' : Fields} (hperm : schemas.Perm schemas')
    (hnodup : schemas'.names.Nodup) :
    Option.Rel (fun r r' : Generation =>
        r.definitions.Perm r'.definitions ∧ r.ordered = r'.ordered)
      (g.runFrom caches schemas).result.1.toOption
      (g.runFrom caches' schemas').result.1.toOption := by
  have hnamed : (named schemas).Perm (named schemas') := hperm.filterMap _
  have hrun : ∀ {caches : Caches}, EscapesOwn caches.patterns → ∀ schemas,
      (g.runFrom caches schemas).result.1.toOption =
        ((named schemas).mapM (g.outcome caches')).toOption.map
          fun ds => { definitions := ds, order := g.graph.order } := by
    intro caches hown schemas
    rw [← run_defineAll hown h' g schemas []]
    unfold runFrom Logged.result
    rcases hr : (g.defineAll caches schemas).run [] with ⟨ds, m⟩
    cases ds with
    | ok ds =>
      rw [Logged.run_bind_ok hr]
      rfl
    | error e =>
      rw [Logged.run_bind_error hr]
      rfl
  rw [hrun h, hrun h']
  have houtcomes := Outcome.mapM_perm (f := g.outcome caches') hnamed
  cases hds : (named schemas').mapM (g.outcome caches') with
  | error e =>
    rw [hds] at houtcomes
    generalize ((named schemas).mapM (g.outcome caches')).toOption = o at houtcomes
    cases houtcomes
    exact .none
  | ok ds' =>
    rw [hds] at houtcomes
    generalize ((named schemas).mapM (g.outcome caches')).toOption = o at houtcomes
    cases houtcomes with
    | some hds' =>
      refine .some ⟨hds', ?_⟩
      have hnames := nodup_named hnodup
      rw [← names_of_outcomes h' hds] at hnames
      unfold Generation.ordered
      congr 1
      funext name
      exact find?_perm hds' hnames name

end

/-! ## Histories -/

/--
**Named schemas do not depend on what was compiled before them.** After any calls, in whatever
environments that share the caches and whether they failed or not, the definition of a named schema
is the same expression with the same session, or the same failure, as if nothing had been compiled.
So the order in which the schemas of a document are compiled, and what was compiled before, make no
difference to its definitions.
-/
theorem history_independent (base : Environment) (calls : List Call) :
    (∀ (env : Environment) (name : String) (v : Value) (s : Session) (log : List LogRecord),
      ((compileNamed env name v).run { session := s, caches := after base.caches calls, log }).1 =
        ((compileNamed env name v).run { session := {}, caches := base.caches }).1) ∧
    ∀ (g : Generator) (schemas : Fields), g.caches = base.caches → g.schemas.names.Nodup →
      schemas.Perm g.schemas →
      Option.Rel (fun r r' : Generation =>
          r.definitions.Perm r'.definitions ∧ r.ordered = r'.ordered)
        (g.runFrom (after base.caches calls) schemas).result.1.toOption g.run.result.1.toOption := by
  have hstart := escapesOwn_start base
  have hafter := escapesOwn_after calls hstart
  refine ⟨fun env name v s log => ?_, fun g schemas hcaches hnodup hperm => ?_⟩
  · exact run_compileNamed_eq hafter hstart name v
  · rw [← hcaches] at hstart
    exact runFrom_perm hafter hstart g hperm hnodup

/-- The generator of an environment whose schemas no request or response is known to use. -/
def ofEnvironment (env : Environment) : Generator where
  config := {}
  schemas := env.schemas
  graph := env.graph
  usage := []
  requests := env
  responses := env
  caches := env.caches

/-- The call for a string with a pattern. -/
def patternCall (env : Environment) : Call where
  env := env
  task := .schema (.object [(.text "type", .text "string"), (.text "pattern", .text "a/b")]) false false

theorem history_independent_reversed :
    ∃ env r r', Environment.ofSchemas Reference.Graph.cycleSchemas = .ok env ∧
      (after env.caches [patternCall env]).patterns.size = 1 ∧
      ((ofEnvironment env).runFrom (after env.caches [patternCall env])
        env.schemas.reverse).result.1.toOption = some r ∧
      (ofEnvironment env).run.result.1.toOption = some r' ∧
      r.definitions.map Definition.name = ["C", "B", "A"] ∧
      r.definitions.Perm r'.definitions ∧ r.ordered = r'.ordered := by
  obtain ⟨env, henv, hsize, hnames, hrun, hnodup⟩ : ∃ env,
      Environment.ofSchemas Reference.Graph.cycleSchemas = .ok env ∧
      (after env.caches [patternCall env]).patterns.size = 1 ∧
      ((ofEnvironment env).runFrom (after env.caches [patternCall env])
        env.schemas.reverse).result.1.toOption.map
        (fun r => r.definitions.map Definition.name) = some ["C", "B", "A"] ∧
      (ofEnvironment env).run.result.1.toOption.isSome = true ∧ env.schemas.names.Nodup :=
    ⟨_, rfl, by decide +kernel, by decide +kernel, by decide +kernel, by decide +kernel⟩
  obtain ⟨r, hr, hnames⟩ := Option.map_eq_some_iff.mp hnames
  obtain ⟨r', hr'⟩ := Option.isSome_iff_exists.mp hrun
  have hrel := (history_independent env [patternCall env]).2 (ofEnvironment env)
    env.schemas.reverse rfl hnodup (List.reverse_perm _)
  rw [hr, hr'] at hrel
  cases hrel with
  | some h => exact ⟨env, r, r', henv, hsize, hr, hr', hnames, h.1, h.2⟩

end Generator

end SchemaForge
