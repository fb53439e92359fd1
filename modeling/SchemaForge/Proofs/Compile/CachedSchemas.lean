import SchemaForge.Proofs.Compile.FilteredBranches
import SchemaForge.Proofs.Compile.Outlook
import SchemaForge.Proofs.Compile.Transparency
import SchemaForge.Proofs.Document.CanonicalFields

/-!
# What the cache of schemas holds

Whatever calls a generator had, an expression in its cache is the result of an earlier run: a view of
the generator compiled a schema to it that has the key, and that run started from such a cache too
(`Filed`). So a schema that is answered from the cache is answered with what another schema with its
canonical text was compiled to, with the same options.
-/

namespace SchemaForge.Compile

open Visibility Comparison Schema Json

variable {env view : Environment} {schema fields : Fields} {v : Value} {key : String}
  {e : Expression} {p q : Progress}

/-! ## Parts of tidy schemas -/

theorem tidy_withoutProperties {omitted : List Scalar} {reduced : Fields}
    (h : (Value.object schema).Tidy) (hreduced : withoutProperties omitted schema = .ok reduced) :
    (Value.object reduced).Tidy := by
  obtain ⟨properties, hproperties, hcases⟩ := withoutProperties_cases hreduced
  have hput := h.put "properties" (((h.value "properties").fieldsIfSet hproperties).filter
    (spares omitted))
  rcases hcases with ⟨-, rfl⟩ | ⟨required, entries, hrequired, hwalk, rfl⟩
  · exact hput
  · have hentries := (h.of_mem (Fields.mem_of_get? hrequired)).walk hwalk
    exact hput.put "required" (.list fun entry hentry => hentries entry (List.mem_of_mem_filter hentry))

theorem BranchPart.tidy {branch : Value} (hb : branch.Tidy) (h : BranchPart branch v) : v.Tidy := by
  have hleft : ∀ {omitted : List Scalar} {left : Value},
      reduceBranch omitted branch = .ok (some left) → left.Tidy := by
    intro omitted left hleft
    rcases reduceBranch_cases hleft with rfl | ⟨fields, reduced, rfl, rfl, -, -, hreduced⟩
    · exact hb
    · exact tidy_withoutProperties hb hreduced
  cases h with
  | whole reduced => exact hleft reduced
  | property reduced declared held => exact (((hleft reduced).value _).fieldsIfSet declared).of_mem held

theorem tidy_nonNullTypes (h : (Value.object schema).Tidy) : ∀ type ∈ nonNullTypes schema, type.Tidy := by
  intro type htype
  have hvalue := h.value "type"
  unfold nonNullTypes at htype
  split at htype
  · rename_i types htypes
    rw [htypes] at hvalue
    exact hvalue.walk rfl type (List.mem_of_mem_filter htype)
  · obtain rfl := List.mem_singleton.mp htype
    exact .scalar _
  · cases htype

/-- **The parts of a tidy schema are tidy.** -/
theorem PartOf.tidy (hs : (Value.object schema).Tidy) (h : PartOf schema v) : v.Tidy := by
  cases h with
  | keyword known held => exact hs.value _
  | place walked held => exact (hs.value _).walk walked _ held
  | property declared held => exact ((hs.value _).fieldsIfSet declared).of_mem held
  | entry known is held => exact (is ▸ hs.value _).of_mem held
  | oneType several held => exact (hs.erase _).put _ (tidy_nonNullTypes hs _ held)
  | excluded held => exact hs.of_mem (Fields.mem_of_get? held)
  | remainder held => exact (hs.erase _).erase _
  | branch known held walked listed part =>
    exact part.tidy ((hs.of_mem (Fields.mem_of_get? held)).walk walked _ listed)
  | @target discriminator mapping name target told mapped held =>
    have hmapping := (told ▸ hs.value "discriminator").value "mapping"
    have hempty : (Value.object []).Tidy := ⟨rfl, rfl⟩
    exact hempty.put "$ref" ((mapped ▸ hmapping).of_mem held)

/-- Names that are texts, or different from each other, still are if only a part is visible. -/
theorem names_visibleFields (hfields : visibleFields env schema = .ok fields) :
    (Fields.textNamed schema = true → Fields.textNamed fields = true) ∧
      (Fields.distinct schema = true → Fields.distinct fields = true) := by
  by_cases hwhole : env.context.visibility = .all ∨ schema.has "properties" = false
  · rw [visibleFields_eq_self hwhole] at hfields
    cases hfields
    exact ⟨id, id⟩
  · obtain ⟨hvis, hdeclares⟩ := not_or.mp hwhole
    rw [visibleFields_of_properties hvis (by simpa using hdeclares)] at hfields
    obtain ⟨filtered, hfilter, hfields⟩ := Outcome.bind_eq_ok.mp hfields
    obtain rfl := Value.eq_object_of_fields hfields
    have hstable := filterSchema_stable hfilter
    exact ⟨hstable.textNamed, hstable.distinct⟩

theorem tidy_visibleFields (h : (Value.object schema).Tidy)
    (hfields : visibleFields env schema = .ok fields) : (Value.object fields).Tidy :=
  ⟨(names_visibleFields hfields).1 h.textNamed, (names_visibleFields hfields).2 h.distinct⟩

/-! ## Filed expressions -/

/-- An environment with other values for the options that a view may set. -/
def Varies (env view : Environment) : Prop :=
  ∃ mode useDescribe includeDescriptions, view = env.withOptions mode useDescribe includeDescriptions

theorem Varies.refl (env : Environment) : Varies env env :=
  ⟨env.context.mode, env.context.useDescribe, env.context.includeDescriptions, rfl⟩

/-- **An expression that a generator may hold in its cache under a key**: one of its views compiled a
tidy schema with this key to it, and found nothing else in the cache than such expressions. -/
inductive Filed (env : Environment) : String → Expression → Prop where
  | compiled {view : Environment} {schema : Fields} {top branch : Bool} {key : String} {levels : Nat}
      {p q : Progress} {e : Expression} (varies : Varies env view) (tidy : (Value.object schema).Tidy)
      (keyed : cacheKey view schema top branch = .ok key)
      (found : ∀ entry ∈ p.caches.schemas.entries, Filed env entry.1 entry.2)
      (run : (compileFields view (compileReference view) (within view (compileReference view) levels)
        schema top branch).run p = (.ok e, q)) : Filed env key e

/-- Caches with the same schemas, all of them filed. -/
def filing (env : Environment) : Comparison :=
  sharing (· = none) BothOwn fun key e e' => e = e' ∧ Filed env key e

/-- **What is compiled in a session without a name is filed.** -/
theorem compileWithin_filing (hvaries : Varies env view) (levels : Nat) (v : Value) (top branch : Bool)
    (hv : v.Tidy) : (filing env).Alike (SchemaMatched True top branch v)
      (compileWithin view (compileReference view) top branch levels v)
      (compileWithin view (compileReference view) top branch levels v) := by
  refine compileWithin_alike (D := Value.Tidy) sharing_own_steady rfl
    (fun schema fields w hschema hfields hpart => hpart.tidy (tidy_visibleFields hschema hfields))
    (fun levels schema top branch hschema hinner => ?_) levels v top branch hv
  refine compileCached_sharing sharing_own_steady (.refl view)
    (compileReference_alike sharing_own_steady) (fun _ => rfl) hinner rfl ?_ ?_
  · rintro key - - e _ ⟨rfl, -⟩
    exact ⟨fun _ => rfl, fun _ => rfl⟩
  · intro key hkey _ p q p' e e' hpq hname hrun he
    exact ⟨he.eq trivial, .compiled hvaries hschema hkey (all_of_linked (hpq.schemas hname)) hrun⟩

/-! ## Sessions with a name -/

/-- Progress in sessions with a name, by which the cache of schemas is not touched. -/
structure Untouched (schemas : Recency String Expression) (p q : Progress) : Prop where
  named : p.session.name.isSome = true
  name : p.session.name = q.session.name
  patterns : BothOwn p.caches.patterns q.caches.patterns
  left : p.caches.schemas = schemas
  right : q.caches.schemas = schemas

/-- Runs in sessions with a name. -/
def untouched (schemas : Recency String Expression) : Comparison where
  linked := Untouched schemas

theorem untouched_steady (schemas : Recency String Expression) : (untouched schemas).Steady :=
  .of_kept (fun h => h.name) (fun h => h.patterns) fun h hp hq =>
    ⟨by rw [hp.name, h.named], by rw [hp.name, hq.name, h.name], ⟨hp.patterns, hq.patterns⟩,
      hp.schemas.trans h.left, hq.schemas.trans h.right⟩

/-- **In a session with a name the cache of schemas stays as it is.** -/
theorem compileWithin_untouched (view : Environment) (schemas : Recency String Expression)
    (levels : Nat) (v : Value) (top branch : Bool) : (untouched schemas).Alike (SchemaMatched True top branch v)
      (compileWithin view (compileReference view) top branch levels v)
      (compileWithin view (compileReference view) top branch levels v) := by
  have hsteady := untouched_steady schemas
  refine compileWithin_alike (D := fun _ => True) hsteady rfl (fun _ _ _ _ _ _ => trivial)
    (fun levels schema top branch _ hinner p q hpq => ?_) levels v top branch trivial
  have hfields : (untouched schemas).Alike (FieldsMatched True schema top branch)
      (compileFields view (compileReference view) (within view (compileReference view) levels) schema
        top branch)
      (compileFields view (compileReference view) (within view (compileReference view) levels) schema
        top branch) :=
    compileFields_alike hsteady (.refl view) (compileReference_alike hsteady) (fun _ => rfl) hinner
  cases hkey : cacheKey view schema top branch with
  | error f =>
    rw [run_compileCached_error hkey, run_compileCached_error hkey]
    exact .error hpq
  | ok key =>
    rw [run_compileCached_skip hkey (by rw [hpq.named, Bool.true_or]),
      run_compileCached_skip hkey (by rw [← hpq.name, hpq.named, Bool.true_or])]
    exact hfields p q hpq

/-! ## Calls -/

/-- What a task compiles. -/
def Task.value : Task → Value
  | .schema v _ _ => v
  | .named _ v => v

/-- Where nothing is excused, progress that is linked still is after a run. -/
theorem linked_of_run {C : Comparison} {α : Type} {Q : α → α → Prop} {a : Compile α}
    (h : C.Alike Q a a) (hleft : ∀ f, ¬ C.excusedLeft f) (hright : ∀ f, ¬ C.excusedRight f)
    (hpq : C.linked p q) : C.linked (a.run p).2 (a.run q).2 := by
  have hagree := h p q hpq
  generalize a.run p = r at hagree ⊢
  generalize a.run q = r' at hagree ⊢
  cases hagree with
  | ok _ linked => exact linked
  | error linked => exact linked
  | left excused => exact absurd excused (hleft _)
  | right excused => exact absurd excused (hright _)

theorem filed_of_compileSchema (hvaries : Varies env view) (hv : v.Tidy) {top branch : Bool}
    (hown : EscapesOwn p.caches.patterns) (hfiled : p.caches.schemas.All (Filed env)) :
    ((compileSchema view v top branch).run p).2.caches.schemas.All (Filed env) := by
  rw [run_compileSchema]
  cases hname : p.session.name with
  | none =>
    have hrun : Sharing (· = none) BothOwn (fun key e e' => e = e' ∧ Filed env key e) _ _ :=
      linked_of_run (compileWithin_filing hvaries (levelsFor view p.session.depth v) v top branch hv)
        nofun nofun ⟨rfl, hname, ⟨hown, hown⟩, fun _ => linked_of_all hfiled⟩
    exact all_of_linked (hrun.schemas hrun.name)
  | some name =>
    have hrun : Untouched p.caches.schemas _ _ :=
      linked_of_run (compileWithin_untouched view p.caches.schemas
        (levelsFor view p.session.depth v) v top branch) nofun nofun
        ⟨by rw [hname]; rfl, rfl, ⟨hown, hown⟩, rfl, rfl⟩
    rw [hrun.left]
    exact hfiled

/-- **Whatever a call ends in, the cache holds nothing but what was filed.** -/
theorem Call.filed (c : Call) (hvaries : Varies env c.env) (htidy : c.task.value.Tidy)
    {caches : Caches} (hown : EscapesOwn caches.patterns) (hfiled : caches.schemas.All (Filed env)) :
    (c.run caches).2.caches.schemas.All (Filed env) := by
  cases htask : c.task with
  | schema v top branch =>
    rw [htask] at htidy
    rw [(run_schema htask).2]
    exact filed_of_compileSchema hvaries htidy hown hfiled
  | named name v =>
    rw [htask] at htidy
    have hrun : (c.run caches).2.caches = ((compileSchema c.env v true false).run
        { c.start caches with session := { name := some name } }).2.caches := by
      unfold Call.run Call.compile
      rw [htask]
      rfl
    rw [hrun]
    exact filed_of_compileSchema hvaries htidy hown hfiled

/-- **After any calls through its views, a generator has filed all that its cache holds.** -/
theorem filed_after {schemas : Fields} {ctx : Context} {graph : Reference.Graph} {base : Environment}
    (hbase : Environment.make schemas ctx graph = .ok base) (hview : base.IsView view)
    {calls : List Call} (hcalls : ∀ c ∈ calls, base.IsView c.env ∧ c.task.value.Tidy) :
    (after base.caches calls).schemas.All (Filed view) := by
  have hvaries : ∀ {env : Environment}, base.IsView env → Varies view env := by
    intro env henv
    obtain ⟨mode, describe, descriptions, rfl⟩ := hview.eq_withOptions hbase
    obtain ⟨mode', describe', descriptions', rfl⟩ := henv.eq_withOptions hbase
    exact ⟨mode', describe', descriptions', rfl⟩
  have hall : ∀ {caches : Caches}, EscapesOwn caches.patterns → caches.schemas.All (Filed view) →
      (after caches calls).schemas.All (Filed view) := by
    clear hview
    induction calls with
    | nil => exact fun _ hfiled => hfiled
    | cons c calls ih =>
      obtain ⟨⟨hc, htidy⟩, hcalls⟩ := List.forall_mem_cons.mp hcalls
      exact fun hown hfiled =>
        ih hcalls (c.escapesOwn hown) (c.filed (hvaries hc) htidy hown hfiled)
  exact hall (escapesOwn_start base) (Recency.all_empty _)

/-! ## Answers from the cache -/

/-- **A schema that is answered from the cache is answered with what a schema with its canonical text
was compiled to, with the same options.** -/
theorem Filed.exists_twin {top branch : Bool} (h : Filed env key e)
    (hkey : cacheKey env schema top branch = .ok key) :
    ∃ view twin levels p q, SameOptions env view ∧ (Value.object twin).Tidy ∧
      SameCanonical (.object schema) (.object twin) ∧ p.caches.schemas.All (Filed env) ∧
      (compileFields view (compileReference view) (within view (compileReference view) levels) twin top
        branch).run p = (.ok e, q) := by
  obtain ⟨⟨mode, describe, descriptions, hvaries⟩, tidy, keyed, found, run⟩ := h
  have hsame := sameKey_of_cacheKey hkey keyed
  have hset : ∀ {k : String} {v w : Value}, (.text k, v) ∈ keyFields env schema top branch →
      write canonical v = write canonical w → v.isSet = w.isSet := by
    intro k v w hv hw
    obtain ⟨part, hpart, -⟩ := infix_of_write hkey hv
    exact SameCanonical.isSet ⟨part, hpart, hw ▸ hpart⟩
  obtain ⟨mode', describe', descriptions', hself⟩ := Varies.refl env
  have hoptions := sameOptions_of_sameKey hself hvaries hsame
    (hset (k := "describe") (by simp [keyFields]) hsame.describe)
    (hset (k := "descriptions") (by simp [keyFields]) hsame.descriptions)
  rw [← hsame.top, ← hsame.branch] at run
  exact ⟨_, _, _, _, _, hoptions, tidy, hsame.text, found, run⟩

end SchemaForge.Compile
