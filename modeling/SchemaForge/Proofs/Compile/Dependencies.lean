import SchemaForge.Proofs.Compile.Deferral
import SchemaForge.Proofs.Compile.History
import SchemaForge.Proofs.Compile.LedgerSchemas

/-!
# Recorded dependencies

While a schema is compiled under a name, the session records every schema that is referred to. What
is recorded is exact: the constants that the dependencies stand for are the constants that the
compiled tree names, no fewer and no more, and all dependencies are edges of the reference graph.

The books to keep are that the constants of the dependencies are the names entered so far. Only a
reference changes either, and it changes both alike. A definition that is itself a reference is left
out: it records nothing. So is a schema without a name, and by the same check a schema whose name is
the empty text, although that has a name.
-/

namespace SchemaForge.Compile

open Reference Schema Ledger Expression

variable {env : Environment} {names : List String} {X R : String}

/-- Every dependency is an edge and has a constant, and these are the constants that are named. -/
structure Recorded (env : Environment) (X : String) (marks : Set Mark) (dependencies : List String) :
    Prop where
  edges : ∀ d ∈ dependencies, env.graph.Edge X d
  constants : ∀ d ∈ dependencies, ∃ const, constantOf env d = .ok const
  exact : ∀ const, .name const ∈ marks ↔ ∃ d ∈ dependencies, constantOf env d = .ok const

theorem recorded_nil : Recorded env X ∅ [] := ⟨by simp, by simp, by simp⟩

/-- The books on the dependencies of a schema. -/
def dependencyLedger (env : Environment) (X : String) : Ledger where
  owner := X
  booked := Recorded env X
  allows _ := True
  fails _ := True
  declares h hnames := by
    refine ⟨h.edges, h.constants, fun const => ?_⟩
    rw [← h.exact const, Set.mem_union]
    refine ⟨fun hmem => hmem.resolve_right fun hname => ?_, Or.inl⟩
    obtain ⟨name, hname, -⟩ := hnames _ hname
    cases hname
  fault _ := trivial
  tooDeep _ _ := trivial
  notASchema _ _ := trivial

/-- A dependency is recorded together with its constant. -/
theorem addDependency_books {const : String} (hedge : env.graph.Edge X R)
    (hconst : constantOf env R = .ok const) :
    (dependencyLedger env X).Books ∅ (fun _ => True) (fun _ => {.name const}) (addDependency R) := by
  intro marks p hp
  rw [Set.union_empty] at hp
  have hbooked : Recorded env X marks p.session.dependencies := hp.booked
  obtain ⟨q, hrun, hname, hcaches, hmem⟩ := run_addDependency R p
  rw [hrun]
  refine .ok trivial ⟨⟨hname.trans hp.name, hcaches ▸ hp.patterns⟩, ⟨?_, ?_, fun c => ?_⟩⟩
  · intro d hd
    rcases (hmem d).mp hd with hd | rfl
    · exact hbooked.edges d hd
    · exact hedge
  · intro d hd
    rcases (hmem d).mp hd with hd | rfl
    · exact hbooked.constants d hd
    · exact ⟨const, hconst⟩
  · rw [Set.mem_union, hbooked.exact c, Set.mem_singleton_iff, Mark.name.injEq]
    constructor
    · rintro (⟨d, hd, hc⟩ | rfl)
      · exact ⟨d, (hmem d).mpr (Or.inl hd), hc⟩
      · exact ⟨R, (hmem R).mpr (Or.inr rfl), hconst⟩
    · rintro ⟨d, hd, hc⟩
      rcases (hmem d).mp hd with hd | rfl
      · exact Or.inl ⟨d, hd, hc⟩
      · rw [hconst] at hc
        cases hc
        exact Or.inr rfl

/-- **A reference inside a schema records its target and names the constant of it.** -/
theorem compileReference_records (hX : X ≠ "") (hedge : OnEdge env X R) (ref : String) :
    (dependencyLedger env X).Enters (compileReference env ref R false) := by
  refine compileReference_enters (fun _ _ => trivial) fun hknown const hconst => ?_
  have howner : (dependencyLedger env X).owner = X := rfl
  rw [howner, if_pos (by simpa using hX)]
  exact addDependency_books (hedge hknown) hconst

theorem blank_dateTime {ctx : Context} (h : ctx.Built) : ctx.dateTime.Blank := by
  rcases h.dateTime_cases with h | ⟨source, h⟩
  · rw [h]
    exact blank_zod (by simp)
  · rw [h]
    exact (blank_zod (by simp)).andThen (by decide) (by simp)

theorem dependencyRules (h : env.Proper names) (hX : X ≠ "") :
    LedgerRules (dependencyLedger env X) env (compileReference env)
      (ValueInScope (OnEdge env X)) where
  dateTime := blank_dateTime h.context
  parts hs hfields hpart := hpart.scope (visibleFields_scope hs hfields)
  declares _ _ _ _ _ _ := trivial
  references hs hfields hform := by
    refine compileReference_records hX ?_ _
    have hheld := Fields.value_of_get? (get?_of_classify_reference hform)
    exact (visibleFields_scope hs hfields).here.ref _ hheld
  twice := compileReference_alike (both_steady _)

/-- A schema whose visible part is a reference is one itself. -/
theorem classify_of_visible_reference {schema fields : Fields} {ref name : String}
    (hfields : visibleFields env schema = .ok fields)
    (hform : classify fields = .ok (.reference ref name)) :
    ∃ name, classify schema = .ok (.reference ref name) := by
  have hheld := get?_of_classify_reference hform
  rw [get?_visibleFields_of_keyword hfields (by decide) (by decide)] at hheld
  refine ⟨Naming.targetName ref, ?_⟩
  unfold classify at hform ⊢
  rw [nonNullTypes_visibleFields hfields] at hform
  by_cases hseveral : 1 < (nonNullTypes schema).length
  · rw [if_pos hseveral] at hform
    cases hform
  · rw [if_neg hseveral]
    simp only [hheld]

/-- The dependencies of a session are exact for a compiled tree: the constants that they stand for
are those that the tree names, deferred or not, and each of them is an edge of the graph. -/
def RecordsExactly (env : Environment) (X : String) (e : Expression) (s : Session) : Prop :=
  (∃ consts, s.dependencies.mapM (constantOf env) = .ok consts ∧
    ∀ const, const ∈ consts ↔ .identifier const ∈ e.toNode.walk) ∧
  ∀ d ∈ s.dependencies, env.graph.Edge X d

/-- **The recorded dependencies of a definition are exact**, if it is not itself a reference and its
name is not the empty text. -/
theorem dependencies_exact (h : env.Proper names) (hX : X ∈ names) (hnamed : X ≠ "")
    (hroot : ∀ schema ref name, env.schemas.value X = .object schema →
      classify schema ≠ .ok (.reference ref name))
    {base : Environment} {calls : List Call} {p q : Progress} (hp : p.caches = after base.caches calls)
    {e : Expression} {s : Session}
    (he : (compileNamed env X (env.schemas.value X)).run p = (.ok (e, s), q)) :
    RecordsExactly env X e s := by
  have hscope := (Graph.describes_of_ok h.named h.graph).scope hX
  have hdefined : RootEnters (dependencyLedger env X) env (compileReference env)
      (env.schemas.value X) := by
    intro schema fields ref hschema hfields hform
    obtain ⟨name, hform⟩ := classify_of_visible_reference hfields hform
    exact absurd hform (hroot schema ref name hschema)
  have hown : EscapesOwn p.caches.patterns := by
    rw [hp]
    exact escapesOwn_after calls (escapesOwn_start base)
  rcases (dependencyRules h hnamed).compileNamedWith_ends hscope hdefined recorded_nil hown he with
    ⟨f, hfailed, -⟩ | ⟨e', s', hok, hbooked⟩
  · cases hfailed
  · cases hok
    obtain ⟨consts, hconsts⟩ := Outcome.exists_mapM_of_forall hbooked.constants
    have hall := Outcome.forall₂_of_mapM hconsts
    refine ⟨⟨consts, hconsts, fun const => ?_⟩, hbooked.edges⟩
    rw [← Node.name_mem_marks, Node.marks_toNode, hbooked.exact]
    constructor
    · intro hmem
      exact Outcome.exists_left_of_mem hall hmem
    · rintro ⟨d, hd, hc⟩
      obtain ⟨const', hmem, hc'⟩ := Outcome.exists_right_of_mem hall hd
      rw [hc] at hc'
      cases hc'
      exact hmem

/-- What can be computed of a run that succeeds. -/
theorem exists_run_of_gives {α : Type} {a : Compile (Expression × Session)} {p : Progress}
    {f : Expression × Session → α} {x : α} (h : (a.run p).1.toOption.map f = some x) :
    ∃ e s q, a.run p = (.ok (e, s), q) ∧ f (e, s) = x := by
  rcases hrun : a.run p with ⟨result, q⟩
  rw [hrun] at h
  cases result with
  | error failure => cases h
  | ok r =>
    cases h
    exact ⟨r.1, r.2, q, rfl, rfl⟩

/-- An object and a schema that composes it with itself. The reference to itself is deferred, so it is
compiled once to extend the composition and once more to be intersected. -/
def composedWithItself : Fields :=
  [(.text "A", .object [(.text "type", .text "object"), (.text "properties", .object [])]),
   (.text "N", .object [(.text "allOf", .list [
     .object [(.text "$ref", .text "#/components/schemas/A")],
     .object [(.text "$ref", .text "#/components/schemas/N")]])])]

theorem dependencies_exact_composed :
    ∃ env p q e s, Environment.ofSchemas composedWithItself = .ok env ∧
      (compileNamed env "N" (env.schemas.value "N")).run p = (.ok (e, s), q) ∧
      e.toNode.refs = [.plain "aSchema", .deferred "nSchema" "z.ZodTypeAny"] ∧
      s.dependencies = ["A", "N"] ∧ RecordsExactly env "N" e s := by
  have hnamed : Named composedWithItself ["A", "N"] := ⟨by decide, by decide⟩
  obtain ⟨env, henv, hschemas, hgives⟩ : ∃ env,
      Environment.ofSchemas composedWithItself = .ok env ∧ env.schemas = composedWithItself ∧
      ((compileNamed env "N" (env.schemas.value "N")).run ⟨{}, after env.caches [], []⟩).1.toOption.map
        (fun r => (r.1.toNode.refs, r.2.dependencies)) =
          some ([.plain "aSchema", .deferred "nSchema" "z.ZodTypeAny"], ["A", "N"]) :=
    ⟨_, rfl, rfl, by decide +kernel⟩
  have hroot : ∀ schema ref name, env.schemas.value "N" = .object schema →
      classify schema ≠ .ok (.reference ref name) := by
    intro schema ref name hschema hform
    rw [hschemas] at hschema
    cases hschema
    cases hform
  obtain ⟨e, s, q, hrun, hfound⟩ := exists_run_of_gives hgives
  obtain ⟨hrefs, hdependencies⟩ := Prod.mk.inj hfound
  refine ⟨env, _, q, e, s, henv, hrun, hrefs, hdependencies, ?_⟩
  exact dependencies_exact (Environment.proper_ofSchemas hnamed henv) (by decide) (by decide) hroot
    rfl hrun

/-- A schema whose name is the empty text, with a reference to another one. -/
def emptyName : Fields :=
  [(.text "", .object [(.text "type", .text "object"),
     (.text "properties", .object [(.text "b", .object [(.text "$ref", .text "#/components/schemas/B")])])]),
   (.text "B", .object [(.text "type", .text "string")])]

/-- **A schema whose name is the empty text records none of the constants that its tree names.** -/
theorem not_recordsExactly_emptyName :
    ∃ env p q e s, Environment.ofSchemas emptyName = .ok env ∧ env.Proper ["", "B"] ∧
      p.caches = after env.caches [] ∧
      (compileNamed env "" (env.schemas.value "")).run p = (.ok (e, s), q) ∧
      .identifier "bSchema" ∈ e.toNode.walk ∧ s.dependencies = [] ∧
      ¬ RecordsExactly env "" e s := by
  have hnamed : Named emptyName ["", "B"] := ⟨by decide, by decide⟩
  obtain ⟨env, henv, hgives⟩ : ∃ env, Environment.ofSchemas emptyName = .ok env ∧
      ((compileNamed env "" (env.schemas.value "")).run ⟨{}, after env.caches [], []⟩).1.toOption.map
        (fun r => (r.1.toNode.refs, r.2.dependencies)) = some ([.plain "bSchema"], []) :=
    ⟨_, rfl, by decide +kernel⟩
  obtain ⟨e, s, q, hrun, hfound⟩ := exists_run_of_gives hgives
  obtain ⟨hrefs, hnone⟩ := Prod.mk.inj hfound
  have hwalk : Node.identifier "bSchema" ∈ e.toNode.walk :=
    ((Node.walk_shows e.toNode).1 "bSchema").mpr ⟨.plain "bSchema", by simp [hrefs], rfl⟩
  refine ⟨env, _, q, e, s, henv, Environment.proper_ofSchemas hnamed henv, rfl, hrun, hwalk, hnone, ?_⟩
  rintro ⟨⟨consts, hconsts, hexact⟩, -⟩
  rw [hnone] at hconsts
  cases hconsts
  exact absurd ((hexact "bSchema").mpr hwalk) List.not_mem_nil

end SchemaForge.Compile
