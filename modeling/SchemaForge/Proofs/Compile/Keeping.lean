import SchemaForge.Proofs.Compile.Logic
import SchemaForge.Proofs.Compile.Parts
import SchemaForge.Proofs.Faults

/-!
# What compilation keeps

`Keeps` is a judgement on a computation from any progress: it ends with a result that has a property
or with a failure of a kind, and either way its progress goes as a `Course` says. The course that is
asked about most is that the session only grows (`growing`): its depth is what it was, and what it
gathered stays in its place. As in `Same` and `Alike`, the rules follow the way computations are put
together, and the statements follow the parts of the compiler.

The kinds of failures that are asked about have to hold the faults that are reported and the failures
of the program's own (`Permits`). Two more failures arise in a single place each: an `allOf` without
branches has no first one, and a schema may be nested too deep.
-/

namespace SchemaForge

/-! ## What a session keeps -/

/-- A list that was added to: what was there keeps its place, and nothing is repeated that was not. -/
structure Grown (old new : List String) : Prop where
  kept : old <+: new
  nodup : old.Nodup → new.Nodup

theorem Grown.refl (l : List String) : Grown l l := ⟨List.prefix_rfl, id⟩

theorem Grown.trans {l l' l'' : List String} (h : Grown l l') (h' : Grown l' l'') : Grown l l'' :=
  ⟨h.kept.trans h'.kept, h'.nodup ∘ h.nodup⟩

/-- A new entry is put at the end. -/
theorem Grown.snoc {l : List String} {x : String} (hx : x ∉ l) : Grown l (l ++ [x]) :=
  ⟨List.prefix_append l [x], fun hl => List.concat_eq_append ▸ hl.concat hx⟩

/-- A session after any part of a run: it has the name and the depth that it had, and all that it
had gathered. -/
structure Session.Extends (s t : Session) : Prop where
  name : t.name = s.name
  depth : t.depth = s.depth
  dependencies : Grown s.dependencies t.dependencies
  conflicts : Grown s.conflicts t.conflicts
  warnings : Grown s.warnings t.warnings

theorem Session.Extends.refl (s : Session) : s.Extends s := ⟨rfl, rfl, .refl _, .refl _, .refl _⟩

theorem Session.Extends.trans {s t u : Session} (h : s.Extends t) (h' : t.Extends u) :
    s.Extends u where
  name := h'.name.trans h.name
  depth := h'.depth.trans h.depth
  dependencies := h.dependencies.trans h'.dependencies
  conflicts := h.conflicts.trans h'.conflicts
  warnings := h.warnings.trans h'.warnings

/-- What holds one level deeper holds when the run is back. -/
theorem Session.Extends.shallower {p q : Progress} (h : p.deeper.session.Extends q.session) :
    p.session.Extends q.shallower.session where
  name := h.name
  depth := by
    have hdepth : q.session.depth = p.session.depth + 1 := h.depth
    show q.session.depth - 1 = p.session.depth
    omega
  dependencies := h.dependencies
  conflicts := h.conflicts
  warnings := h.warnings

namespace Compile

open Schema

/-! ## Courses -/

/-- A step besides the compilation of schemas: the session gathers something, of conflicts only such
as are expected, and patterns may be cached. -/
structure Aside (records : String → Prop) (p q : Progress) : Prop where
  session : p.session.Extends q.session
  schemas : q.caches.schemas = p.caches.schemas
  conflicts : ∀ c ∈ q.session.conflicts, c ∈ p.session.conflicts ∨ records c

/-- Where the session and the filed schemas are as before, only logs and patterns have changed. -/
theorem Aside.of_session {records : String → Prop} {p q : Progress} (hsession : q.session = p.session)
    (hschemas : q.caches.schemas = p.caches.schemas) : Aside records p q where
  session := hsession ▸ .refl _
  schemas := hschemas
  conflicts _ hc := Or.inl (hsession ▸ hc)

/-- How progress may go in a run. -/
structure Course where
  goes : Progress → Progress → Prop
  /-- The conflicts that are expected to be recorded. -/
  records : String → Prop
  aside : ∀ {p q : Progress}, Aside records p q → goes p q
  trans : ∀ {p q r : Progress}, goes p q → goes q r → goes p r
  nested : ∀ {p q : Progress}, goes p.deeper q → goes p q.shallower

/-- The session only grows. -/
def growing : Course where
  goes p q := p.session.Extends q.session
  records _ := True
  aside h := h.session
  trans := .trans
  nested := .shallower

variable {K : Course}

theorem Course.refl (p : Progress) : K.goes p p := K.aside (.of_session rfl rfl)

/-- A course that does not look at the cache of schemas. -/
def Course.Blind (K : Course) : Prop :=
  ∀ (p : Progress) (caches : Caches), K.goes p { p with caches }

/-- How sessions grow has nothing to do with what is filed in the cache. -/
theorem blind_growing : growing.Blind := fun _ _ => .refl _

/-- A step that does nothing but add to what the session gathers. -/
def Gathers (records : String → Prop) (a : Compile Unit) : Prop :=
  ∀ p, ∃ q, a.run p = (.ok (), q) ∧ Aside records p q

/-- Recording a dependency leaves the conflicts and the warnings. -/
theorem gathers_addDependency (records : String → Prop) (name : String) :
    Gathers records (addDependency name) := by
  intro p
  refine ⟨_, rfl, ?_, rfl, fun c hc => Or.inl ?_⟩
  · show p.session.Extends (if p.session.dependencies.contains name then p.session
      else { p.session with dependencies := p.session.dependencies ++ [name] })
    split
    · exact .refl _
    · rename_i hnew
      exact ⟨rfl, rfl, .snoc (by simpa using hnew), .refl _, .refl _⟩
  · dsimp only at hc
    split at hc <;> exact hc

/-- A conflict is recorded only as one of those that the course admits. -/
theorem gathers_addConflict {records : String → Prop} {conflict : String} (h : records conflict) :
    Gathers records (addConflict conflict) := by
  intro p
  show ∃ q, (if p.session.conflicts.contains conflict then pure () else _ : Compile Unit).run p =
    (.ok (), q) ∧ Aside records p q
  split
  · exact ⟨p, rfl, .of_session rfl rfl⟩
  · rename_i hnew
    refine ⟨_, rfl, ⟨rfl, rfl, .refl _, .snoc (by simpa using hnew), .refl _⟩, rfl, fun c hc => ?_⟩
    refine (List.mem_append.mp hc).imp_right fun hc => ?_
    rwa [List.mem_singleton.mp hc]

theorem gathers_addWarning (records : String → Prop) (message : String) :
    Gathers records (addWarning message) := by
  intro p
  show ∃ q, (if p.session.warnings.contains message then pure () else _ : Compile Unit).run p =
    (.ok (), q) ∧ Aside records p q
  split
  · exact ⟨p, rfl, .of_session rfl rfl⟩
  · rename_i hnew
    exact ⟨_, rfl, ⟨rfl, rfl, .refl _, .refl _, .snoc (by simpa using hnew)⟩, rfl,
      fun c hc => Or.inl hc⟩

/-! ## The judgement -/

variable {α β : Type} {E : Failure → Prop} {Q : α → Prop} {R : β → Prop}

/-- A computation ends with a result that has a property or with a failure of a kind, and progress
goes as the course says. -/
def Keeps (K : Course) (E : Failure → Prop) (Q : α → Prop) (a : Compile α) : Prop :=
  ∀ p, K.goes p (a.run p).2 ∧ (∀ x, (a.run p).1 = .ok x → Q x) ∧
    ∀ f, (a.run p).1 = .error f → E f

/-- `Keeps`, with nothing asked of the result. -/
abbrev Runs (K : Course) (E : Failure → Prop) (a : Compile α) : Prop := Keeps K E (fun _ => True) a

/-- The failures that any schema may end in, however deep it is. -/
structure Permits (E : Failure → Prop) : Prop where
  fault : ∀ f, f.Reported → E (.fault f)
  notASchema : ∀ kind owner, E (.notASchema kind owner)
  unresolved : ∀ ref path owner, E (.unresolved ref path owner)

namespace Keeps

variable {a : Compile α}

theorem pure {x : α} (h : Q x) : Keeps K E Q (Pure.pure x) := by
  refine fun p => ⟨K.refl p, fun y hy => ?_, nofun⟩
  cases hy
  exact h

theorem fail {failure : Failure} (h : E failure) : Keeps K E Q (Compile.fail failure) := by
  refine fun p => ⟨K.refl p, nofun, fun f hf => ?_⟩
  cases hf
  exact h

/-- A computation after another: the course goes on, and the first failure ends it. -/
theorem bind {f : α → Compile β} (h : Keeps K E Q a) (hf : ∀ x, Q x → Keeps K E R (f x)) :
    Keeps K E R (a >>= f) := by
  intro p
  obtain ⟨hgoes, hok, herror⟩ := h p
  rcases ha : a.run p with ⟨result, q⟩
  rw [ha] at hgoes hok herror
  cases result with
  | error e =>
    rw [run_bind_error ha]
    refine ⟨hgoes, nofun, fun e' he => ?_⟩
    cases he
    exact herror e rfl
  | ok x =>
    rw [run_bind_ok ha]
    obtain ⟨hgoes', hends⟩ := hf x (hok x rfl) q
    exact ⟨K.trans hgoes hgoes', hends⟩

theorem ite {c : Prop} [Decidable c] {a' : Compile α} (ht : c → Keeps K E Q a)
    (he : ¬ c → Keeps K E Q a') : Keeps K E Q (if c then a else a') := by
  by_cases hc : c
  · rw [if_pos hc]
    exact ht hc
  · rw [if_neg hc]
    exact he hc

/-- What follows a choice follows both of its sides. -/
theorem iteBind {c : Prop} [Decidable c] {a' : Compile α} {f : α → Compile β}
    (ht : c → Keeps K E Q a) (he : ¬ c → Keeps K E Q a') (hf : ∀ x, Q x → Keeps K E R (f x)) :
    Keeps K E R (if c then a >>= f else a' >>= f) :=
  ite (fun hc => (ht hc).bind hf) fun hc => (he hc).bind hf

/-- A step that may fault and does nothing else. -/
theorem lift (hE : Permits E) {x : Except Fault α} (h : Reports x) :
    Keeps K E (fun v => x = .ok v) (liftM x : Compile α) := by
  cases x with
  | ok v => exact pure rfl
  | error f => exact fail (hE.fault f (h f rfl))

theorem liftRuns (hE : Permits E) {x : Except Fault α} (h : Reports x) :
    Runs K E (liftM x : Compile α) := by
  cases x with
  | ok v => exact pure trivial
  | error f => exact fail (hE.fault f (h f rfl))

/-- A step that may fault, if its faults are among the failures that are permitted. -/
theorem liftBind (hE : Permits E) {x : Except Fault α} {f : α → Compile β} (h : Reports x)
    (hf : ∀ v, x = .ok v → Keeps K E R (f v)) : Keeps K E R ((liftM x : Compile α) >>= f) :=
  (lift hE h).bind hf

theorem mapM {f : α → Compile β} : ∀ {l : List α}, (∀ x ∈ l, Runs K E (f x)) → Runs K E (l.mapM f)
  | [], _ => by
    rw [List.mapM_nil]
    exact pure trivial
  | x :: l, h => by
    rw [List.mapM_cons]
    refine (h x List.mem_cons_self).bind fun y _ => ?_
    exact (mapM fun z hz => h z (List.mem_cons_of_mem _ hz)).bind fun _ _ => pure trivial

theorem forM {f : α → Compile PUnit} : ∀ {l : List α}, (∀ x ∈ l, Runs K E (f x)) → Runs K E (l.forM f)
  | [], _ => pure trivial
  | x :: _, h =>
    (h x List.mem_cons_self).bind fun _ _ => forM fun z hz => h z (List.mem_cons_of_mem _ hz)

/-! ## Sessions -/

theorem session : Runs K E Compile.session := fun p => ⟨K.refl p, fun _ _ => trivial, nofun⟩

theorem getProgress : Runs K E (get : Compile Progress) := fun p => ⟨K.refl p, fun _ _ => trivial, nofun⟩

/-- A change of the progress, if the course goes from each state to the changed one. -/
theorem update {f : Progress → Progress} (h : ∀ p, K.goes p (f p)) :
    Runs K E (modify f : Compile PUnit) :=
  fun p => ⟨h p, fun _ _ => trivial, nofun⟩

theorem report (records : List LogRecord) : Runs K E (Compile.report records) :=
  update fun _ => K.aside (.of_session rfl rfl)

theorem of_gathers {a : Compile Unit} (h : Gathers K.records a) : Runs K E a := by
  intro p
  obtain ⟨q, hq, haside⟩ := h p
  rw [hq]
  exact ⟨K.aside haside, fun _ _ => trivial, nofun⟩

theorem addDependency (name : String) : Runs K E (Compile.addDependency name) :=
  of_gathers (gathers_addDependency K.records name)

theorem addConflict {conflict : String} (h : K.records conflict) :
    Runs K E (Compile.addConflict conflict) :=
  of_gathers (gathers_addConflict h)

theorem addWarning (message : String) : Runs K E (Compile.addWarning message) :=
  of_gathers (gathers_addWarning K.records message)

/-- Escaping a pattern consults the cache of patterns, which no course looks at. -/
theorem escapedPattern (hE : Permits E) (pattern : Value) :
    Runs K E (Compile.escapedPattern pattern) := by
  unfold Compile.escapedPattern
  split
  · refine getProgress.bind fun p _ => ?_
    dsimp only
    split
    · exact bind (update fun _ => K.aside (.of_session rfl rfl)) fun _ _ => pure trivial
    · exact bind (update fun _ => K.aside (.of_session rfl rfl)) fun _ _ => pure trivial
  · exact fail (hE.fault _ trivial)

/-- Going one level deeper and coming back, whether it fails or not, is a step of the course. -/
theorem nested (h : Keeps K E Q a) : Keeps K E Q (Compile.nested a) := by
  intro p
  obtain ⟨hgoes, hends⟩ := h p.deeper
  exact ⟨K.nested hgoes, hends⟩

/-- What is found in the cache of schemas ends the computation; what is filed there is of no matter
to a blind course. -/
theorem cached (hblind : K.Blind) {key : String} {act : Compile Expression} (h : Runs K E act) :
    Runs K E (Compile.cached key act) := by
  refine getProgress.bind fun p _ => ?_
  dsimp only
  split
  · exact (update fun p => hblind p _).bind fun _ _ => pure trivial
  · refine h.bind fun e _ => ?_
    exact (update fun p => hblind p _).bind fun _ _ => pure trivial

end Keeps

/-! ## Strings and arrays -/

/-- A conflict that the scan of some branches finds. -/
def ConflictAmong (env : Environment) (branches : List Value) (c : String) : Prop :=
  ∃ scan, scanBranches env.schemas branches = .ok scan ∧ c ∈ scan.conflicts

/-- What may come of a composition: the conflicts among its branches, and without branches the fault
that it has no first one. -/
structure AllowsAllOf (K : Course) (E : Failure → Prop) (env : Environment) (branches : List Value) :
    Prop where
  conflicts : ∀ c, ConflictAmong env branches c → K.records c
  empty : branches = [] → E (.fault .noElement)

/-- Schemas with a property inside another keep to the course and fail only in certain ways. -/
def InnerRuns (K : Course) (E : Failure → Prop) (D : Value → Prop) (inner : Inner) : Prop :=
  ∀ v, D v → ∀ branch, Runs K E (inner v branch)

variable {env : Environment} {schema fields : Fields} {D : Value → Prop} {inner : Inner}
  {e : Expression} (hE : Permits E)
include hE

theorem stringConstraints_runs : Runs K E (stringConstraints schema e) := by
  refine Keeps.ite (fun _ => ?_) fun _ => .pure trivial
  exact (Keeps.escapedPattern hE _).bind fun _ _ => .pure trivial

/-- **Strings** record nothing. -/
theorem compileString_runs : Runs K E (compileString env schema) := by
  refine Keeps.liftBind hE (formatBase_reports env schema) fun base _ => ?_
  refine (stringConstraints_runs hE).bind fun e _ => ?_
  refine Keeps.ite (fun _ => ?_) fun _ => Keeps.ite (fun _ => ?_) fun _ => .pure trivial
  · refine Keeps.liftBind hE (encodingBase_reports _) fun encoded _ => ?_
    exact (stringConstraints_runs hE).bind fun _ _ => .pure trivial
  · refine Keeps.liftBind hE (ruleOf_reports _ _) fun rule _ => ?_
    cases rule with
    | some rule => exact .pure trivial
    | none => exact .pure trivial

section Parts

variable (h : InnerRuns K E (PartOf schema) inner)
include h

theorem compileTuple_runs : Runs K E (compileTuple inner schema) := by
  refine Keeps.liftBind hE (Value.walk_reports _) fun places hplaces => ?_
  refine (Keeps.mapM fun v hv => h v (.place hplaces hv) false).bind fun es _ => ?_
  refine Keeps.ite (fun hrest => ?_) fun _ => Keeps.ite (fun _ => .pure trivial) fun _ => .pure trivial
  have hpart : PartOf schema (if (schema.value "items").isObject then schema.value "items"
      else schema.value "unevaluatedItems") := by
    by_cases hitems : (schema.value "items").isObject = true
    · rw [if_pos hitems] at hrest ⊢
      exact .keyword (by decide) hrest
    · rw [if_neg hitems] at hrest ⊢
      exact .keyword (by decide) hrest
  exact (h _ hpart false).bind fun _ _ => .pure trivial

omit hE in
theorem compileList_runs : Runs K E (compileList inner schema) :=
  Keeps.iteBind (fun hitems => h _ (.keyword (by decide) hitems) false) (fun _ => .pure trivial)
    fun _ _ => .pure trivial

omit hE in
theorem compileContains_runs : Runs K E (compileContains inner schema e) :=
  Keeps.ite (fun hcontains => (h _ (.keyword (by decide) hcontains) true).bind
    fun _ _ => .pure trivial) fun _ => .pure trivial

/-- **Arrays** go on with the schemas inside. -/
theorem compileArray_runs : Runs K E (compileArray env inner schema) :=
  Keeps.iteBind (fun _ => compileTuple_runs hE h) (fun _ => compileList_runs h) fun _ _ =>
    (compileContains_runs h).bind fun _ _ => .pure trivial

end Parts

/-! ## Objects -/

omit hE in
theorem compileProperty_runs {required : List Scalar} {comments : Bool} {name : Scalar}
    {definition : Value} (h : Runs K E (inner definition false)) :
    Runs K E (compileProperty env inner required comments name definition) :=
  h.bind fun _ _ => Keeps.ite
    (fun _ => (Keeps.report _).bind fun _ _ => .pure trivial) fun _ => .pure trivial

/-- A shape goes on with the visible definitions, one after another. -/
theorem compileShape_runs {comments : Bool} (h : ∀ properties name v,
    (schema.value "properties").fieldsIfSet = .ok properties → (name, v) ∈ properties →
      Runs K E (inner v false)) :
    Runs K E (compileShape env inner comments schema) := by
  refine Keeps.liftBind hE (requiredNames_reports schema) fun required _ => ?_
  refine Keeps.liftBind hE (Value.fieldsIfSet_reports _) fun properties hproperties => ?_
  refine (Keeps.mapM fun f hf => compileProperty_runs ?_).bind fun _ _ => .pure trivial
  exact h properties f.1 f.2 hproperties (List.mem_filter.mp hf).1

theorem dependentSchema_runs {property : Scalar} (h : Runs K E (inner (.object fields) true)) :
    Runs K E (dependentSchema inner property fields) :=
  h.bind fun _ _ => Keeps.liftBind hE (Literal.accessOf_reports _ _) fun _ _ =>
    Keeps.liftBind hE (Json.writeNames_reports _) fun _ _ => .pure trivial

section Parts

variable (h : InnerRuns K E (PartOf schema) inner)
include h

omit hE in
theorem additional_runs : Runs K E (additional inner schema e) := by
  unfold additional
  split
  · rename_i fields hfields
    have hpart : PartOf schema (.object fields) := .of_value (by decide) hfields
    exact (h _ hpart false).bind fun _ _ => .pure trivial
  · exact .pure trivial
  · exact .pure trivial
  · exact .pure trivial

theorem patternProperties_runs : Runs K E (patternProperties inner schema e) := by
  unfold patternProperties
  split
  · rename_i p ps hpatterns
    refine Keeps.liftBind hE (Value.fieldsIfSet_reports _) fun declared _ => ?_
    refine (Keeps.mapM fun f hf => h f.2 (.entry (by decide) hpatterns hf) false).bind fun es _ => ?_
    refine Keeps.liftBind hE (Json.writeNames_reports _) fun names _ => ?_
    exact Keeps.liftBind hE (Json.writeNames_reports _) fun sources _ => .pure trivial
  · exact .pure trivial

theorem dependencies_runs : Runs K E (dependencies inner schema) := by
  unfold dependencies
  split
  · rename_i entries hentries
    refine (Keeps.mapM fun f hf => ?_).bind fun _ _ => .pure trivial
    obtain ⟨property, dependency⟩ := f
    cases dependency with
    | scalar s => exact .pure trivial
    | list required =>
      cases required with
      | nil => exact .pure trivial
      | cons r rs =>
        exact Keeps.liftBind hE (requiredCheck_reports _ _) fun _ _ => .pure trivial
    | object asked =>
      refine Keeps.bind (dependentSchema_runs hE ?_) fun _ _ => .pure trivial
      exact h _ (.entry (by decide) hentries hf) true
  · exact .pure trivial

omit hE in
theorem branchCheck_runs {k : String} (hk : k ∈ schemaKeywords) :
    Runs K E (branchCheck inner (schema.value k)) :=
  Keeps.ite (fun hb => (h _ (.keyword hk hb) true).bind fun _ _ => .pure trivial)
    fun _ => .pure trivial

omit hE in
theorem ifThenElse_runs : Runs K E (ifThenElse inner schema) := by
  refine Keeps.ite (fun hc => ?_) fun _ => .pure trivial
  have hif : (schema.value "if").isObject = true := (Bool.and_eq_true_iff.mp hc).1
  refine (h _ (.keyword (by decide) hif) true).bind fun test _ => ?_
  exact (branchCheck_runs h (by decide)).bind fun _ _ =>
    (branchCheck_runs h (by decide)).bind fun _ _ => .pure trivial

/-- **Objects** go on with all the schemas inside, in the order in which they are compiled. -/
theorem compileObject_runs : Runs K E (compileObject env inner schema) := by
  refine (compileShape_runs hE fun properties name v hdeclared hv =>
    h v (.property hdeclared hv) false).bind fun shape _ => ?_
  refine (additional_runs h).bind fun e _ => ?_
  refine Keeps.liftBind hE (undeclaredRequired_reports _ _) fun e _ => ?_
  refine (patternProperties_runs hE h).bind fun e _ => ?_
  refine Keeps.liftBind hE (propertyNames_reports _ _) fun e _ => ?_
  refine (dependencies_runs hE h).bind fun ms _ => ?_
  refine Keeps.liftBind hE (dependentRequired_reports _) fun ms' _ => ?_
  exact (ifThenElse_runs h).bind fun _ _ => .pure trivial

/-- The check of unevaluated properties goes on with one schema, if it has one. -/
theorem checkUnevaluated_runs : Runs K E (checkUnevaluated env inner schema e) := by
  unfold checkUnevaluated
  dsimp only
  split
  · refine Keeps.liftBind hE (evaluatedNames_reports env schema) fun names _ => ?_
    exact Keeps.liftBind hE (Json.writeNames_reports _) fun evaluated _ => .pure trivial
  · rename_i rule hrule
    have hpart : PartOf schema (.object rule) := .of_value (by decide) hrule
    refine Keeps.liftBind hE (evaluatedNames_reports env schema) fun names _ => ?_
    refine Keeps.liftBind hE (Json.writeNames_reports _) fun evaluated _ => ?_
    refine Keeps.bind (Q := fun _ => True) ?_ fun _ _ => .pure trivial
    exact (h _ hpart true).bind fun _ _ => .pure trivial
  · exact .pure trivial

end Parts

/-! ## Compositions -/

section Branch

variable {branch : Value} (h : InnerRuns K E (BranchPart branch) inner)
include h

/-- What extends a result is a branch or a shape of some properties of it. -/
theorem extension_runs {omitted : List Scalar} {fields : Fields}
    (hreduced : reduceBranch omitted branch = .ok (some (.object fields))) :
    Runs K E (extension env inner omitted fields) := by
  have hshape : ∀ e : Expression, Runs K E
      (do return some (.member (← omitting omitted e).toNode "shape") : Compile (Option Node)) :=
    fun e => Keeps.liftBind hE (omitting_reports _ _) fun _ _ => .pure trivial
  refine Keeps.ite (fun _ => ?_) fun _ => Keeps.ite (fun _ => ?_) fun _ => ?_
  · exact (h _ (.whole hreduced) true).bind fun e _ =>
      Keeps.ite (fun _ => hshape e) fun _ => .pure trivial
  · exact (h _ (.whole hreduced) true).bind fun e _ =>
      Keeps.ite (fun _ => .pure trivial) fun _ => hshape e
  · refine (compileShape_runs hE fun properties name v hdeclared hv => ?_).bind
      fun _ _ => .pure trivial
    exact h v (.property hreduced hdeclared hv) false

theorem intersection_runs {omitted : List Scalar} {left : Value}
    (hreduced : reduceBranch omitted branch = .ok (some left)) :
    Runs K E (intersection inner omitted left) := by
  refine (h _ (.whole hreduced) true).bind fun e _ => ?_
  refine Keeps.liftBind hE (Value.holds_reports _ _) fun isRef _ => ?_
  exact Keeps.ite (fun _ => Keeps.liftRuns hE (omitting_reports _ _)) fun _ => .pure trivial

theorem mergeBranch_runs {m : Merge} {omitted : List Scalar} :
    Runs K E (mergeBranch env inner m branch omitted) := by
  refine Keeps.liftBind hE (reduceBranch_reports _ _) fun reduced hreduced => ?_
  cases reduced with
  | none => exact .pure trivial
  | some left =>
    have hintersected : Runs K E (do
        let e ← intersection inner omitted left
        return (⟨m.result.andThen "and" [e.toNode], false⟩ : Merge)) :=
      (intersection_runs hE h hreduced).bind fun _ _ => .pure trivial
    cases left with
    | scalar s => exact hintersected
    | list vs => exact hintersected
    | object fields =>
      refine Keeps.ite (fun _ => ?_) fun _ => hintersected
      refine (extension_runs hE h hreduced).bind fun argument _ => ?_
      cases argument with
      | none => exact hintersected
      | some shape => exact .pure trivial

end Branch

/-- The branches are merged one after another. -/
theorem mergeBranches_runs : ∀ {branches : List (Value × List Scalar)} {m : Merge},
    (∀ b ∈ branches, InnerRuns K E (BranchPart b.1) inner) →
    Runs K E (mergeBranches env inner m branches)
  | [], _, _ => .pure trivial
  | (branch, omitted) :: rest, _, h => by
    obtain ⟨hbranch, hrest⟩ := List.forall_mem_cons.mp h
    exact (mergeBranch_runs hE hbranch).bind fun _ _ => mergeBranches_runs hrest

/-- **A composition records the conflicts among its branches, and without branches it fails in a way of
its own.** -/
theorem compileAllOf_runs {branches : List Value} {nullable : Bool}
    (h : ∀ b ∈ branches, InnerRuns K E (BranchPart b) inner)
    (hallOf : AllowsAllOf K E env branches) :
    Runs K E (compileAllOf env inner branches nullable) := by
  unfold compileAllOf
  split
  · exact (h _ List.mem_cons_self _ (.self _) true).bind fun _ _ => .pure trivial
  · refine Keeps.liftBind hE (scanBranches_reports _ _) fun scan hscan => ?_
    refine (Keeps.forM fun c hc => Keeps.addConflict (hallOf.conflicts c ⟨scan, hscan, hc⟩)).bind
      fun _ _ => ?_
    split
    · exact .fail (hallOf.empty rfl)
    · rename_i first rest _
      obtain ⟨hfirst, hrest⟩ := List.forall_mem_cons.mp h
      refine (hfirst _ (.self _) true).bind fun head _ => ?_
      refine Keeps.iteBind (fun _ => Keeps.liftRuns hE (allObjectLike_reports _ _))
        (fun _ => .pure trivial) fun extensible _ => ?_
      exact (mergeBranches_runs hE fun b hb => hrest _ (List.of_mem_zip hb).1).bind
        fun _ _ => .pure trivial

/-- The branches of a union are those of the schema and those that a mapping adds. -/
theorem selectBranches_keeps {branches : List Value} {discriminator mapping : Value} :
    Keeps K E (fun r => ∀ b ∈ r.1, Selectable branches mapping b)
      (selectBranches env branches discriminator mapping) := by
  refine Keeps.ite (fun _ => ?_) fun _ => .pure fun b hb => Or.inl hb
  refine Keeps.iteBind (Q := fun bs => ∀ b ∈ bs, Selectable branches mapping b) (fun _ => ?_)
    (fun _ => .pure fun b hb => Or.inl hb) fun ordered hordered => ?_
  · intro p
    obtain ⟨hgoes, hok, herror⟩ := Keeps.lift hE (orderByMapping_reports mapping branches) p
    exact ⟨hgoes, fun bs hbs b hb => mem_orderByMapping (hok bs hbs) hb, herror⟩
  · refine Keeps.liftBind hE (requiredEverywhere_reports _ _ _) fun required _ => ?_
    refine Keeps.ite (fun _ => .pure hordered) fun _ => Keeps.session.bind fun s _ => ?_
    exact (Keeps.addWarning _).bind fun _ _ => .pure hordered

/-- **Unions** go on with the branches that are selected. -/
theorem compileUnion_runs {kind : UnionKind} {branches : List Value} {discriminator mapping : Value}
    {nullable admitting : Bool} (h : InnerRuns K E (Selectable branches mapping) inner) :
    Runs K E (compileUnion env inner kind branches discriminator mapping nullable admitting) := by
  unfold compileUnion
  split
  · exact Keeps.session.bind fun s _ => (Keeps.addWarning _).bind fun _ _ => .pure trivial
  · exact (h _ (Or.inl List.mem_cons_self) true).bind fun _ _ => .pure trivial
  · refine (selectBranches_keeps hE).bind fun r hr => ?_
    exact (Keeps.mapM fun b hb => h b (hr b hb) true).bind fun _ _ => .pure trivial

/-! ## Forms -/

/-- References record their dependencies, and go no further into what they refer to. -/
theorem compileReference_runs {ref name : String} {top : Bool} :
    Runs K E (compileReference env ref name top) := by
  refine Keeps.session.bind fun s _ => ?_
  refine Keeps.ite (fun _ => .fail (hE.unresolved _ _ _)) fun _ => ?_
  refine Keeps.liftBind hE (Reference.followAlias_reports _ _ _ _) fun resolved _ => ?_
  split
  · exact Keeps.liftBind hE (env.constName_reports _) fun _ _ => .pure trivial
  · rename_i current _
    have hnamed : Runs K E (do
        let const ← env.constName resolved
        if mustDefer env current name resolved then
          if env.context.separateTypes.isSet then
            return deferredRef const ("z.ZodType<" ++ (← env.typeName resolved) ++ ">")
          else return deferredRef const "z.ZodTypeAny"
        else return plainRef const : Compile Expression) := by
      refine Keeps.liftBind hE (env.constName_reports _) fun const _ => ?_
      refine Keeps.ite (fun _ => Keeps.ite (fun _ => ?_) fun _ => .pure trivial) fun _ => .pure trivial
      exact Keeps.liftBind hE (env.typeName_reports _) fun _ _ => .pure trivial
    exact Keeps.ite (fun _ => (Keeps.addDependency _).bind fun _ _ => hnamed) fun _ => hnamed

section Forms

variable {refer : Refer} {form : Form} {top branch : Bool}
  (h : InnerRuns K E (PartOf schema) inner) (hform : FormOf schema form)
include h

omit hE in
theorem compileNegation_runs {excluded : Value} (held : schema.get? "not" = some excluded) :
    Runs K E (compileNegation inner schema excluded) := by
  refine (h _ (.excluded held) true).bind fun e _ => ?_
  exact Keeps.iteBind (fun _ => h _ (.remainder (Fields.has_of_get? held)) true)
    (fun _ => .pure trivial) fun _ _ => .pure trivial

theorem compileObjectForm_runs {constrained : Bool} :
    Runs K E (compileObjectForm env inner schema constrained) := by
  unfold compileObjectForm
  refine Keeps.ite (fun _ => ?_) fun _ => ?_
  · refine (compileObject_runs hE h).bind fun e _ => ?_
    exact (checkUnevaluated_runs hE h).bind fun _ _ => .pure trivial
  · split
    · rename_i values hvalues
      have hpart : PartOf schema (.object values) := .of_value (by decide) hvalues
      exact (h _ hpart false).bind fun _ _ => .pure trivial
    · exact .pure trivial
    · exact .pure trivial

variable (hrefer : ∀ ref name top, Runs K E (refer ref name top))
include hform hrefer

/-- **Each form** but compositions of branches, which come first. -/
theorem compileForm_runs : Runs K E (compileForm env refer inner schema top form) := by
  cases hform with
  | severalTypes several =>
    exact (Keeps.mapM fun _ ht => h _ (.oneType several ht) true).bind fun _ _ => .pure trivial
  | reference held => exact hrefer _ _ _
  | constant held => exact .pure trivial
  | enum held walked => exact .pure trivial
  | negation held => exact compileNegation_runs h held
  | allOf held walked => exact .pure trivial
  | union held walked told => exact .pure trivial
  | ofType =>
    rcases formOfType_cases schema with hf | ⟨isInteger, hf⟩ | hf | hf | ⟨constrained, hf⟩ | hf
    all_goals rw [hf]
    · exact compileString_runs hE
    · exact .pure trivial
    · exact .pure trivial
    · exact compileArray_runs hE h
    · exact compileObjectForm_runs hE h
    · exact .pure trivial

/-- **Schemas with a form**, if its composition is allowed for. -/
theorem compileClassified_runs
    (hallOf : ∀ branches, form = .allOf branches → AllowsAllOf K E env branches) :
    Runs K E (compileClassified env refer inner schema top branch form) := by
  have hother : Runs K E (do
      let e ← compileForm env refer inner schema top form
      return e.nullableIf (isNullable schema
        (defaultApplies schema top branch && env.context.defaultNullable.isSet))) :=
    (compileForm_runs hE h hform hrefer).bind fun _ _ => .pure trivial
  cases hform with
  | allOf held walked =>
    refine (compileAllOf_runs hE (fun b hb v hv => ?_) (hallOf _ rfl)).bind fun e _ =>
      checkUnevaluated_runs hE h
    exact h v (.branch (by decide) held walked hb hv)
  | @union kind value branches discriminator held walked told =>
    have hkind : kind.keyword ∈ ["allOf", "oneOf", "anyOf"] := by cases kind <;> decide
    refine (compileUnion_runs hE fun b hb => ?_).bind fun e _ => checkUnevaluated_runs hE h
    rcases hb with hlisted | ⟨targets, name, t, hm, ht, rfl⟩
    · exact h b (.branch hkind held walked hlisted (.self b))
    · rcases Value.fieldsIfSet_eq_ok told with rfl | htold
      · cases hm
      · exact h _ (.target htold hm ht)
  | ofType =>
    rcases formOfType_cases schema with hf | ⟨_, hf⟩ | hf | hf | ⟨_, hf⟩ | hf
    all_goals
      rw [hf] at hother ⊢
      exact hother
  | severalTypes several => exact hother
  | reference held => exact hother
  | constant held => exact hother
  | enum held walked => exact hother
  | negation held => exact hother

end Forms

/-! ## Schemas -/

/-- **A schema object, if the schemas inside it keep to the course and fail only in the permitted
ways.** -/
theorem compileFields_runs {refer : Refer} (hrefer : ∀ ref name top, Runs K E (refer ref name top))
    (h : ∀ fields, visibleFields env schema = .ok fields → InnerRuns K E (PartOf fields) inner)
    (hallOf : ∀ fields branches, visibleFields env schema = .ok fields →
      classify fields = .ok (.allOf branches) → AllowsAllOf K E env branches) (top branch : Bool) :
    Runs K E (compileFields env refer inner schema top branch) := by
  refine Keeps.liftBind hE (visibleFields_reports env schema) fun fields hfields => ?_
  refine Keeps.liftBind hE (classify_reports fields) fun form hform => ?_
  refine compileClassified_runs hE (h fields hfields) (formOf_of_classify hform) hrefer ?_
  rintro branches rfl
  exact hallOf fields branches hfields hform

/-- Looking a schema up or compiling it makes no difference to a blind course. -/
theorem compileCached_runs (hblind : K.Blind) {refer : Refer} {top branch : Bool}
    (h : Runs K E (compileFields env refer inner schema top branch)) :
    Runs K E (compileCached env refer inner schema top branch) := by
  refine Keeps.liftBind hE (Json.write_reports _) fun key _ => Keeps.session.bind fun s _ => ?_
  exact Keeps.ite (fun _ => h) fun _ => Keeps.cached hblind h

/-- A value that is no object fails only because it is none. -/
theorem compileWithin_runs_of_ne {refer : Refer} {v : Value} (hv : ∀ fields, v ≠ .object fields)
    (levels : Nat) (top branch : Bool) : Runs K E (compileWithin env refer top branch levels v) := by
  unfold compileWithin
  split
  · exact .pure trivial
  · exact absurd rfl (hv _)
  · exact absurd rfl (hv _)
  · exact Keeps.session.bind fun s _ => .fail (hE.notASchema _ _)

/-- The course does not look at the cache, the schemas in a set have their parts in it, what may come
of compositions among them is allowed, and they may be nested too deep. -/
structure RunRules (K : Course) (E : Failure → Prop) (env : Environment) (D : Value → Prop) :
    Prop where
  blind : K.Blind
  parts : ∀ {schema fields v}, D (.object schema) → visibleFields env schema = .ok fields →
    PartOf fields v → D v
  allOf : ∀ {schema fields branches}, D (.object schema) → visibleFields env schema = .ok fields →
    classify fields = .ok (.allOf branches) → AllowsAllOf K E env branches
  tooDeep : ∀ limit owner, E (.tooDeep limit owner)

namespace RunRules

variable {refer : Refer} (rules : RunRules K E env D)
  (hrefer : ∀ ref name top, Runs K E (refer ref name top))
include rules hrefer

/-- **By induction on the levels left: schemas of any depth keep to the course and fail only in the
permitted ways.** -/
theorem compileWithin_runs : ∀ (levels : Nat) (v : Value) (top branch : Bool), D v →
    Runs K E (compileWithin env refer top branch levels v) := by
  intro levels
  induction levels with
  | zero =>
    intro v top branch hv
    by_cases hobject : ∃ schema, v = .object schema
    · obtain ⟨schema, rfl⟩ := hobject
      exact Keeps.session.bind fun s _ => .fail (rules.tooDeep _ _)
    · exact compileWithin_runs_of_ne hE (not_exists.mp hobject) 0 top branch
  | succ levels ih =>
    intro v top branch hv
    by_cases hobject : ∃ schema, v = .object schema
    · obtain ⟨schema, rfl⟩ := hobject
      refine Keeps.nested (compileCached_runs hE rules.blind
        (compileFields_runs hE hrefer ?_ ?_ top branch))
      · exact fun fields hfields w hw branch => ih w false branch (rules.parts hv hfields hw)
      · exact fun fields branches hfields hform => rules.allOf hv hfields hform
    · exact compileWithin_runs_of_ne hE (not_exists.mp hobject) _ top branch

end RunRules

/-- **A whole run**, from rules for each of its steps. -/
theorem compileSchema_runs (rules : RunRules K E env D) {v : Value} (hv : D v)
    (top branch : Bool) : Runs K E (compileSchema env v top branch) :=
  Keeps.session.bind fun _ _ =>
    rules.compileWithin_runs hE (fun _ _ _ => compileReference_runs hE) _ v top branch hv

omit hE

/-! ## Sessions only grow -/

theorem permits_all : Permits fun _ => True :=
  ⟨fun _ _ => trivial, fun _ _ => trivial, fun _ _ _ => trivial⟩

/-- Sessions grow by any conflict, so a composition has to be allowed for only without branches. -/
theorem allowsAllOf_growing {E : Failure → Prop} {branches : List Value}
    (hempty : branches = [] → E (.fault .noElement)) : AllowsAllOf growing E env branches :=
  ⟨fun _ _ => trivial, hempty⟩

theorem runRules_all (env : Environment) : RunRules growing (fun _ => True) env fun _ => True :=
  ⟨blind_growing, fun _ _ _ => trivial, fun _ _ _ => allowsAllOf_growing fun _ => trivial,
    fun _ _ => trivial⟩

/-- What is compiled inside a schema lets the session grow. -/
theorem innerRuns_within (env : Environment) (levels : Nat) (D : Value → Prop) :
    InnerRuns growing (fun _ => True) D (fun v branch =>
      compileWithin env (compileReference env) false branch levels v) :=
  fun v _ branch => (runRules_all env).compileWithin_runs permits_all
    (fun _ _ _ => compileReference_runs permits_all) levels v false branch trivial

/-- **Whatever it ends in, the compilation of a schema lets the session grow.** -/
theorem compileSchema_extends (env : Environment) (v : Value) (top branch : Bool) (p : Progress) :
    p.session.Extends ((compileSchema env v top branch).run p).2.session :=
  (compileSchema_runs permits_all (runRules_all env) trivial top branch p).1

end Compile

end SchemaForge
