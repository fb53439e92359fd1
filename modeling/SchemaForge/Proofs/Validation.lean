import SchemaForge.Proofs.Compile.Dependencies
import SchemaForge.Proofs.Generation
import SchemaForge.Proofs.Specification

/-!
# What the check of references is good for

A generator comes from a document whose references were checked. So no definition refers to a schema
that is not there: whatever was compiled before, a run may fail, but never because a reference cannot
be resolved.

Compilation does not meet the schemas of a document as they were checked. It filters them, cuts them
down, and makes up branches for the targets of discriminator mappings. But nothing of that brings in
a name that the checked schema does not refer to itself.
-/

namespace SchemaForge

open Reference

/-! ## How reporting computations end -/

namespace Logged

variable {α β : Type} {E : Failure → Prop} {Q : α → Prop} {R : β → Prop}

/-- Whatever was reported before, a computation ends with a result or a failure of a kind. -/
def Ends (E : Failure → Prop) (Q : α → Prop) (a : Logged α) : Prop :=
  ∀ l, (∀ x, (a.run l).1 = .ok x → Q x) ∧ ∀ f, (a.run l).1 = .error f → E f

namespace Ends

variable {a : Logged α}

theorem pure {x : α} (h : Q x) : Ends E Q (Pure.pure x) := by
  refine fun l => ⟨fun y hy => ?_, nofun⟩
  cases hy
  exact h

theorem bind {f : α → Logged β} (h : Ends E Q a) (hf : ∀ x, Q x → Ends E R (f x)) :
    Ends E R (a >>= f) := by
  intro l
  rcases ha : a.run l with ⟨r, m⟩
  cases r with
  | ok x =>
    rw [run_bind_ok ha]
    exact hf x ((h l).1 x (by rw [ha])) m
  | error e =>
    rw [run_bind_error ha]
    refine ⟨nofun, fun e' he => ?_⟩
    cases he
    exact (h l).2 e (by rw [ha])

theorem report (records : List LogRecord) : Ends E (fun _ => True) (Logged.report records) :=
  fun _ => ⟨fun _ _ => trivial, nofun⟩

theorem lift (hE : ∀ f, E (.fault f)) {x : Except Fault α} :
    Ends E (fun v => x = .ok v) (liftM x : Logged α) := by
  cases x with
  | ok v => exact pure rfl
  | error f =>
    refine fun l => ⟨nofun, fun e he => ?_⟩
    cases he
    exact hE f

theorem liftFailure {x : Except Failure α} (hE : ∀ f, x = .error f → E f) :
    Ends E (fun v => x = .ok v) (liftM x : Logged α) := by
  cases x with
  | ok v => exact pure rfl
  | error f =>
    refine fun l => ⟨nofun, fun e he => ?_⟩
    cases he
    exact hE f rfl

end Ends

end Logged

namespace Compile

variable {env : Environment} {X : String}

/-- The books of a run in which all references can be resolved. -/
def resolvingLedger (owner : String) : Ledger where
  owner
  booked _ _ := True
  allows _ := True
  fails f := f.failureClass ≠ .unresolvedReference
  declares _ _ := trivial
  fault _ := nofun
  tooDeep _ _ := nofun
  notASchema _ _ := nofun

/-- **References in the scope of the schemas keep the books.** -/
theorem compileReference_resolves {owner ref : String} {top : Bool}
    (hknown : env.schemas.has (Naming.targetName ref) = true) :
    (resolvingLedger owner).Enters (compileReference env ref (Naming.targetName ref) top) := by
  have hindifferent : (resolvingLedger owner).Indifferent := fun _ _ _ => trivial
  refine hindifferent.compileReference_enters fun hmissing => ?_
  rw [hknown] at hmissing
  cases hmissing

/-- Schemas that refer to schemas only. -/
abbrev Resolved (env : Environment) : Value → Prop :=
  ValueInScope fun n => env.schemas.has n = true

theorem known_of_classify {schema fields : Fields} {ref : String} (hs : Resolved env (.object schema))
    (hfields : visibleFields env schema = .ok fields)
    (hform : Schema.classify fields = .ok (.reference ref (Naming.targetName ref))) :
    env.schemas.has (Naming.targetName ref) = true := by
  have hheld := Fields.value_of_get? (Schema.get?_of_classify_reference hform)
  exact (visibleFields_scope hs hfields).here.ref _ hheld

theorem resolvingRules (hctx : env.context.Built) {owner : String} :
    LedgerRules (resolvingLedger owner) env (compileReference env) (Resolved env) where
  dateTime := blank_dateTime hctx
  parts hs hfields hpart := hpart.scope (visibleFields_scope hs hfields)
  declares _ _ _ _ _ _ := trivial
  references hs hfields hform := compileReference_resolves (known_of_classify hs hfields hform)
  twice := compileReference_alike (Ledger.both_steady _)

theorem failureClass_failureOf {name : String} {f : Failure}
    (h : f.failureClass ≠ .unresolvedReference) :
    (failureOf name f).failureClass ≠ .unresolvedReference := by
  unfold failureOf
  split
  case h_5 => exact h
  all_goals nofun

/-- **A definition that refers to schemas only does not fail for a reference.** -/
theorem resolved_of_compileNamed (hctx : env.context.Built) {v : Value} (hv : Resolved env v)
    {p : Progress} (hp : EscapesOwn p.caches.patterns) {f : Failure}
    (hf : ((compileNamed env X v).run p).1 = .error f) : f.failureClass ≠ .unresolvedReference := by
  have hroot : RootEnters (resolvingLedger X) env (compileReference env) v := by
    rintro schema fields ref rfl hfields hform
    exact compileReference_resolves (known_of_classify hv hfields hform)
  rcases hrun : (compileNamed env X v).run p with ⟨result, q⟩
  obtain rfl : result = .error f := by rw [← hf, hrun]
  rcases (resolvingRules hctx).compileNamedWith_ends hv hroot trivial hp hrun with
    ⟨f', hfailed, hclass⟩ | ⟨e, s, hok, -⟩
  · cases hfailed
    exact failureClass_failureOf hclass
  · cases hok

/-- **Whatever were done about references to anything else, such a definition is compiled the same.** -/
theorem compileNamedWith_resolved (hctx : env.context.Built) {v : Value} (hv : Resolved env v)
    {refer : Refer} (hrefer : ∀ ref top, env.schemas.has (Naming.targetName ref) = true →
      refer ref (Naming.targetName ref) top = compileReference env ref (Naming.targetName ref) top) :
    compileNamedWith env refer X v = compileNamed env X v := by
  have hsame : ReferSame X (fun n => env.schemas.has n = true) (fun _ => True) refer
      (compileReference env) := by
    intro ref top hknown
    rw [hrefer ref top hknown]
    exact compileReference_same.mono fun _ _ _ _ => trivial
  exact compileNamedWith_eq hctx.meets_dateTime hsame hv

end Compile

namespace Generator

open Compile

/-! ## Generators of documents -/

/-- A generator whose references were checked, with environments of its own schemas. -/
structure Checked (g : Generator) : Prop where
  references : Specification.checkReferences g.schemas = .ok ()
  schemas : ∀ name, (g.environment name).schemas = g.schemas
  context : ∀ name, (g.environment name).context.Built
  caches : EscapesOwn g.caches.patterns

variable {g : Generator}

theorem Checked.resolved (h : g.Checked) {name : Scalar} {schema : Value}
    (hmem : (name, schema) ∈ g.schemas) (owner : String) :
    Resolved (g.environment owner) schema := by
  rw [Resolved, h.schemas owner]
  exact Specification.scope_of_checked h.references hmem

theorem make_eq_ok {schemas : Fields} {ctx : Context} {graph : Graph} {env : Environment}
    (h : Environment.make schemas ctx graph = .ok env) :
    env.schemas = schemas ∧ env.context = ctx := by
  obtain ⟨table, -, h⟩ := Outcome.bind_eq_ok.mp h
  cases h
  exact ⟨rfl, rfl⟩

theorem view_eq_ok {env env' : Environment} {option : OverridesOption}
    (hctx : env.context.Built) (h : env.view option = .ok env') :
    env'.schemas = env.schemas ∧ env'.context.Built := by
  obtain ⟨ctx, hoption, h⟩ := Outcome.bind_eq_ok.mp h
  obtain ⟨hschemas, hcontext⟩ := make_eq_ok h
  refine ⟨hschemas, ?_⟩
  rw [hcontext]
  cases option with
  | overrides o =>
    cases hoption
    exact .override o hctx
  | other v => cases hoption

theorem announced_ends {env : Except Fault Environment} :
    Logged.Ends (fun _ => True) (fun e => env = .ok e) (announced env) := by
  refine (Logged.Ends.lift fun _ => trivial).bind fun e he => ?_
  exact (Logged.Ends.report _).bind fun _ _ => .pure he

/-- **The generator of a document is checked.** -/
theorem ofDocument_ends (document : Value) (config : Config) :
    Logged.Ends (fun _ => True) Checked (ofDocument document config) := by
  have hlift : ∀ {α : Type} {x : Except Fault α},
      Logged.Ends (fun _ => True) (fun v => x = .ok v) (liftM x : Logged α) :=
    Logged.Ends.lift fun _ => trivial
  have hliftFailure : ∀ {α : Type} {x : Except Failure α},
      Logged.Ends (fun _ => True) (fun v => x = .ok v) (liftM x : Logged α) :=
    Logged.Ends.liftFailure fun _ _ => trivial
  refine hliftFailure.bind fun ctx hctx => hliftFailure.bind fun schemas _ => ?_
  refine hliftFailure.bind fun _ hchecked => hlift.bind fun graph _ => ?_
  refine (Logged.Ends.report _).bind fun _ _ => hlift.bind fun fields _ => ?_
  refine hlift.bind fun usage _ => announced_ends.bind fun base hbase => ?_
  refine announced_ends.bind fun requests hrequests => ?_
  refine announced_ends.bind fun responses hresponses => .pure ?_
  obtain ⟨hschemas, hcontext⟩ := make_eq_ok hbase
  have hbuilt : base.context.Built := by
    rw [hcontext]
    exact .config hctx
  obtain ⟨hforRequests, hbuiltRequests⟩ := view_eq_ok hbuilt hrequests
  obtain ⟨hforResponses, hbuiltResponses⟩ := view_eq_ok hbuilt hresponses
  refine ⟨hchecked, fun name => ?_, fun name => ?_, escapesOwn_start base⟩
  · unfold environment
    split
    · exact hforResponses.trans hschemas
    · exact hforRequests.trans hschemas
  · unfold environment
    split
    · exact hbuiltResponses
    · exact hbuiltRequests

/-! ## Definitions -/

/-- The failures that are not for a reference. -/
def NotReference (f : Failure) : Prop := f.failureClass ≠ .unresolvedReference

theorem commentOf_ends {E : Failure → Prop} {env : Environment} {name : String} {schema : Value} :
    Logged.Ends E (fun _ => True) (commentOf env name schema) :=
  (Logged.Ends.report _).bind fun _ _ => .pure trivial

/-- **The definition of a named schema does not fail for a reference**, and the next one finds caches
of the same kind. -/
theorem Checked.define_ends (h : g.Checked) {caches : Caches} (hown : EscapesOwn caches.patterns)
    {name : String} {schema : Value} (hmem : (.text name, schema) ∈ g.schemas) :
    Logged.Ends NotReference (fun r => EscapesOwn r.2.patterns) (g.define caches name schema) := by
  have hlift : ∀ {α : Type} {x : Except Fault α},
      Logged.Ends NotReference (fun v => x = .ok v) (liftM x : Logged α) :=
    Logged.Ends.lift fun _ => nofun
  refine (Logged.Ends.report _).bind fun _ _ => hlift.bind fun const _ => ?_
  refine hlift.bind fun type _ => hlift.bind fun form _ => ?_
  split
  · refine Logged.Ends.bind (Q := fun _ => True) ?_ fun _ _ => .pure hown
    exact hlift.bind fun fields _ => commentOf_ends.bind fun _ _ => .pure trivial
  · have hafter := Call.escapesOwn
      { env := g.environment name, task := .named name schema } hown
    refine (Logged.Ends.report _).bind fun _ _ => ?_
    refine (Logged.Ends.liftFailure fun f hf => ?_).bind fun r _ => ?_
    · exact resolved_of_compileNamed (h.context name) (h.resolved hmem name) hown hf
    · exact commentOf_ends.bind fun _ _ => .pure hafter

theorem Checked.defineAll_ends (h : g.Checked) : ∀ {schemas : Fields} {caches : Caches},
    (∀ f ∈ schemas, f ∈ g.schemas) → EscapesOwn caches.patterns →
    Logged.Ends NotReference (fun _ => True) (g.defineAll caches schemas)
  | [], _, _, _ => .pure trivial
  | (name, schema) :: rest, caches, hmem, hown => by
    obtain ⟨hfirst, hrest⟩ := List.forall_mem_cons.mp hmem
    cases name with
    | text name =>
      refine (h.define_ends hown hfirst).bind fun r hown => ?_
      exact (h.defineAll_ends hrest hown).bind fun _ _ => .pure trivial
    | _ =>
      show Logged.Ends NotReference (fun _ => True) (g.defineAll caches rest)
      exact h.defineAll_ends hrest hown

/--
**The check of references is complete.** If a document has a generator, then after any calls no run
fails because a reference cannot be resolved. And nothing would change in the definition of a named
schema if references to anything but schemas of the document were compiled in any other way:
compilation never meets one.
-/
theorem references_complete {document : Value} {config : Config} {records : List LogRecord}
    (hg : (ofDocument document config).result = (.ok g, records)) :
    (∀ calls failure, (g.runFrom (after g.caches calls) g.schemas).result.1 = .error failure →
      failure.failureClass ≠ .unresolvedReference) ∧
    ∀ name schema, (.text name, schema) ∈ g.schemas → ∀ refer : Refer,
      (∀ ref top, g.schemas.has (Naming.targetName ref) = true →
        refer ref (Naming.targetName ref) top =
          compileReference (g.environment name) ref (Naming.targetName ref) top) →
      compileNamedWith (g.environment name) refer name schema =
        compileNamed (g.environment name) name schema := by
  have hchecked : g.Checked := by
    refine (ofDocument_ends document config []).1 g ?_
    have hrun : (ofDocument document config).run [] = (.ok g, records) := hg
    rw [hrun]
  refine ⟨fun calls failure hfailure => ?_, fun name schema hmem refer hrefer => ?_⟩
  · have hown := escapesOwn_after calls hchecked.caches
    have hrun : Logged.Ends NotReference (fun _ => True)
        (g.runFrom (after g.caches calls) g.schemas) :=
      (hchecked.defineAll_ends (fun _ hf => hf) hown).bind fun _ _ => .pure trivial
    exact (hrun []).2 failure hfailure
  · refine compileNamedWith_resolved (hchecked.context name) (hchecked.resolved hmem name) ?_
    rw [hchecked.schemas name]
    exact hrefer

/-- A union whose discriminator mapping names a schema that is not among the branches. -/
def petDocument : Value :=
  let named (name : String) : Value := .text ("#/components/schemas/" ++ name)
  let empty : Value := .object [(.text "type", .text "object")]
  .object [(.text "components", .object [(.text "schemas", .object [
    (.text "Pet", .object [
      (.text "oneOf", .list
        [.object [(.text "$ref", named "Cat")], .object [(.text "$ref", named "Cow")]]),
      (.text "discriminator", .object [
        (.text "propertyName", .text "kind"),
        (.text "mapping", .object [(.text "dog", named "Dog")])])]),
    (.text "Cat", empty),
    (.text "Cow", empty),
    (.text "Dog", empty)])])]

theorem references_complete_pets :
    ∃ g records, (ofDocument petDocument {}).result = (.ok g, records) ∧
      (g.run.result.1.toOption.map fun r => r.definitions.map fun d => (d.name, d.dependencies)) =
        some [("Pet", ["Dog", "Cat", "Cow"]), ("Cat", []), ("Cow", []), ("Dog", [])] ∧
      ∀ calls failure, (g.runFrom (after g.caches calls) g.schemas).result.1 = .error failure →
        failure.failureClass ≠ .unresolvedReference := by
  obtain ⟨g, records, hg, hgives⟩ : ∃ g records,
      (ofDocument petDocument {}).result = (.ok g, records) ∧
      (g.run.result.1.toOption.map fun r => r.definitions.map fun d => (d.name, d.dependencies)) =
        some [("Pet", ["Dog", "Cat", "Cow"]), ("Cat", []), ("Cow", []), ("Dog", [])] :=
    ⟨_, _, rfl, by decide +kernel⟩
  exact ⟨g, records, hg, hgives, (references_complete hg).1⟩

end Generator

end SchemaForge
