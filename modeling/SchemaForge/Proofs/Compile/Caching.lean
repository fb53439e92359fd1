import SchemaForge.Proofs.Compile.Agreement
import SchemaForge.Proofs.Recency

/-!
# Runs that use the caches

How a run depends on the caches that it starts from, in the three places where it does: the escape
of a pattern, a schema that is taken from the cache or else put there, and the choice between looking
a schema up and compiling it.

`sharing` compares two runs in one session whose caches may differ. Compiled schemas only matter in a
session without a name, and escaped patterns do not matter if every pattern is kept with its own
escape.
-/

namespace SchemaForge

/-- The progress with another cache of compiled schemas. -/
def Progress.withSchemas (p : Progress) (schemas : Recency String Expression) : Progress :=
  { p with caches := { p.caches with schemas := schemas } }

/-- The progress with another cache of escaped patterns. -/
def Progress.withPatterns (p : Progress) (patterns : Recency String String) : Progress :=
  { p with caches := { p.caches with patterns := patterns } }

namespace Compile

variable {p q : Progress} {key : String} {act : Compile Expression} {e : Expression}

theorem run_get_bind {α : Type} (f : Progress → Compile α) (p : Progress) :
    ((get : Compile Progress) >>= f).run p = (f p).run p := rfl

/-! ## Patterns -/

theorem run_escapedPattern_hit {pattern escaped : String} {patterns : Recency String String}
    (h : p.caches.patterns.find pattern = (some escaped, patterns)) :
    (escapedPattern (.text pattern)).run p = (.ok escaped, p.withPatterns patterns) := by
  show ((get : Compile Progress) >>= _).run p = _
  rw [run_get_bind, h]
  rfl

theorem run_escapedPattern_miss {pattern : String} {patterns : Recency String String}
    (h : p.caches.patterns.find pattern = (none, patterns)) :
    (escapedPattern (.text pattern)).run p = (.ok (Literal.regex pattern),
      p.withPatterns (patterns.set pattern (Literal.regex pattern))) := by
  show ((get : Compile Progress) >>= _).run p = _
  rw [run_get_bind, h]
  rfl

/-! ## Schemas -/

theorem run_cached_hit {schemas : Recency String Expression}
    (h : p.caches.schemas.find key = (some e, schemas)) :
    (cached key act).run p = (.ok e, p.withSchemas schemas) := by
  unfold cached
  rw [run_get_bind, h]
  rfl

theorem run_cached_ok {schemas : Recency String Expression}
    (h : p.caches.schemas.find key = (none, schemas)) (hact : act.run p = (.ok e, q)) :
    (cached key act).run p = (.ok e, q.withSchemas (q.caches.schemas.set key e)) := by
  unfold cached
  rw [run_get_bind, h]
  show (act >>= _).run p = _
  rw [run_bind_ok hact]
  rfl

theorem run_cached_error {schemas : Recency String Expression} {f : Failure}
    (h : p.caches.schemas.find key = (none, schemas)) (hact : act.run p = (.error f, q)) :
    (cached key act).run p = (.error f, q) := by
  unfold cached
  rw [run_get_bind, h]
  exact run_bind_error hact

section Schemas

variable {env : Environment} {refer : Refer} {inner : Inner} {schema : Fields} {top branch : Bool}

/-- Even a schema that is not looked up fails if it has no key. -/
theorem run_compileCached_error {f : Fault} (h : cacheKey env schema top branch = .error f) :
    (compileCached env refer inner schema top branch).run p = (.error (.fault f), p) := by
  unfold compileCached
  rw [h]
  rfl

/-- Schemas that are compiled under a name, and those that are never cached. -/
theorem run_compileCached_skip (h : cacheKey env schema top branch = .ok key)
    (hskip : (p.session.name.isSome || namesUncached key) = true) :
    (compileCached env refer inner schema top branch).run p =
      (compileFields env refer inner schema top branch).run p := by
  unfold compileCached
  rw [h]
  show (if (p.session.name.isSome || namesUncached key) = true then _ else _ : Compile _).run p = _
  rw [if_pos hskip]

theorem run_compileCached_look (h : cacheKey env schema top branch = .ok key)
    (hlook : (p.session.name.isSome || namesUncached key) = false) :
    (compileCached env refer inner schema top branch).run p =
      (cached key (compileFields env refer inner schema top branch)).run p := by
  unfold compileCached
  rw [h]
  show (if (p.session.name.isSome || namesUncached key) = true then _ else _ : Compile _).run p = _
  rw [if_neg (by simp [hlook])]

end Schemas

/-! ## Patterns are kept with their own escapes -/

/-- Every pattern in a cache is kept with its own escape. -/
def EscapesOwn (patterns : Recency String String) : Prop :=
  patterns.All fun pattern escaped => escaped = Literal.regex pattern

/-- **Then a pattern is escaped as if there were no cache, and the cache stays as it should be.** -/
theorem run_escapedPattern {t : String} (h : EscapesOwn p.caches.patterns) :
    ∃ patterns, EscapesOwn patterns ∧ (escapedPattern (.text t)).run p =
      (.ok (Literal.regex t), p.withPatterns patterns) := by
  rcases hfind : p.caches.patterns.find t with ⟨found, patterns⟩
  obtain ⟨hall, hfound⟩ := h.find hfind
  cases found with
  | some escaped =>
    obtain rfl := hfound escaped rfl
    exact ⟨patterns, hall, run_escapedPattern_hit hfind⟩
  | none => exact ⟨_, hall.set rfl, run_escapedPattern_miss hfind⟩

/-- Only a text can be escaped. -/
theorem escapedPattern_alike {C : Comparison}
    (h : ∀ t, C.Alike Eq (escapedPattern (.text t)) (escapedPattern (.text t))) (pattern : Value) :
    C.Alike Eq (escapedPattern pattern) (escapedPattern pattern) := by
  cases pattern with
  | list vs => exact .fail _
  | object fields => exact .fail _
  | scalar s =>
    cases s with
    | text t => exact h t
    | _ => exact .fail _

/-! ## Steps that keep the name and the caches -/

/-- A step that only adds to what a session gathers or to the log. -/
def Quiet (a : Compile Unit) : Prop :=
  ∀ p, ∃ q, a.run p = (.ok (), q) ∧ q.session.name = p.session.name ∧ q.caches = p.caches

theorem quiet_report (records : List LogRecord) : Quiet (report records) :=
  fun _ => ⟨_, rfl, rfl, rfl⟩

theorem quiet_modifySession {f : Session → Session} (h : ∀ s, (f s).name = s.name) :
    Quiet (modifySession f) :=
  fun p => ⟨_, rfl, h p.session, rfl⟩

theorem Quiet.bind {a b : Compile Unit} (ha : Quiet a) (hb : Quiet b) : Quiet (a >>= fun _ => b) := by
  intro p
  obtain ⟨q, hq, hname, hcaches⟩ := ha p
  obtain ⟨r, hr, hname', hcaches'⟩ := hb q
  exact ⟨r, (run_bind_ok hq).trans hr, hname'.trans hname, hcaches'.trans hcaches⟩

theorem quiet_addDependency (name : String) : Quiet (addDependency name) :=
  quiet_modifySession fun s => by split <;> rfl

/-- A step that is skipped if the session has a note of it. -/
theorem quiet_unless {noted : Session → Bool} {a : Session → Compile Unit} (h : ∀ s, Quiet (a s)) :
    Quiet (session >>= fun s => if noted s then pure () else a s) := by
  intro p
  show ∃ q, (if noted p.session then pure () else a p.session : Compile Unit).run p = (.ok (), q) ∧ _
  split
  · exact ⟨p, rfl, rfl, rfl⟩
  · exact h p.session p

theorem quiet_addConflict (conflict : String) : Quiet (addConflict conflict) := by
  refine quiet_unless fun _ => .bind (quiet_modifySession fun _ => ?_) (quiet_report _)
  rfl

theorem quiet_addWarning (message : String) : Quiet (addWarning message) := by
  refine quiet_unless fun _ => .bind (quiet_modifySession fun _ => ?_) (quiet_report _)
  rfl

/-- What is left of the progress after any part of a run: the name of the session, the compiled
schemas, and patterns with their own escapes. -/
structure Kept (p q : Progress) : Prop where
  name : q.session.name = p.session.name
  schemas : q.caches.schemas = p.caches.schemas
  patterns : EscapesOwn q.caches.patterns

/-- A comparison that looks at nothing else is steady. -/
theorem Comparison.Steady.of_kept {C : Comparison}
    (hname : ∀ {p q}, C.linked p q → p.session.name = q.session.name)
    (hown : ∀ {p q}, C.linked p q → EscapesOwn p.caches.patterns ∧ EscapesOwn q.caches.patterns)
    (hkept : ∀ {p q p' q'}, C.linked p q → Kept p p' → Kept q q' → C.linked p' q') : C.Steady := by
  have hquiet : ∀ {a : Compile Unit}, Quiet a → C.Alike Eq a a := by
    intro a ha p q hpq
    obtain ⟨p', hp, hname, hcaches⟩ := ha p
    obtain ⟨q', hq, hname', hcaches'⟩ := ha q
    rw [hp, hq]
    refine .ok rfl (hkept hpq ⟨hname, by rw [hcaches], ?_⟩ ⟨hname', by rw [hcaches'], ?_⟩)
    · rw [hcaches]
      exact (hown hpq).1
    · rw [hcaches']
      exact (hown hpq).2
  exact {
    name_eq := hname
    deeper := fun hpq => hkept hpq ⟨rfl, rfl, (hown hpq).1⟩ ⟨rfl, rfl, (hown hpq).2⟩
    shallower := fun hpq => hkept hpq ⟨rfl, rfl, (hown hpq).1⟩ ⟨rfl, rfl, (hown hpq).2⟩
    report := fun records => hquiet (quiet_report records)
    addDependency := fun name => hquiet (quiet_addDependency name)
    addConflict := fun conflict => hquiet (quiet_addConflict conflict)
    addWarning := fun message => hquiet (quiet_addWarning message)
    escapedPattern := escapedPattern_alike fun t p q hpq => by
      obtain ⟨patterns, hp, hl⟩ := run_escapedPattern (t := t) (hown hpq).1
      obtain ⟨patterns', hq, hr⟩ := run_escapedPattern (t := t) (hown hpq).2
      rw [hl, hr]
      exact .ok rfl (hkept hpq ⟨rfl, rfl, hp⟩ ⟨rfl, rfl, hq⟩) }

/-! ## Runs in one session -/

/-- What two runs in one session have in common: the session, with a name of a kind, caches of
patterns in a relation, and, where it is used at all, caches of schemas with results in a relation. -/
structure Sharing (K : Option String → Prop)
    (S : Recency String String → Recency String String → Prop)
    (R : String → Expression → Expression → Prop) (p q : Progress) : Prop where
  session : p.session = q.session
  name : K p.session.name
  patterns : S p.caches.patterns q.caches.patterns
  schemas : p.session.name = none → p.caches.schemas.Linked R q.caches.schemas

/-- Runs in one session are compared. -/
def sharing (K : Option String → Prop) (S : Recency String String → Recency String String → Prop)
    (R : String → Expression → Expression → Prop) : Comparison where
  linked := Sharing K S R

/-- Caches of patterns in which every pattern has its own escape. -/
def BothOwn (patterns patterns' : Recency String String) : Prop :=
  EscapesOwn patterns ∧ EscapesOwn patterns'

variable {K : Option String → Prop} {S : Recency String String → Recency String String → Prop}
  {R : String → Expression → Expression → Prop}

theorem Sharing.mono {R' : String → Expression → Expression → Prop} {p q : Progress}
    (h : Sharing K S R p q) (hR : ∀ key e e', R key e e' → R' key e e') : Sharing K S R' p q :=
  ⟨h.session, h.name, h.patterns, fun hname => (h.schemas hname).mono hR⟩

/-- Runs that are compared end in one failure or with results in the relation; nothing is
excused. -/
theorem paired_of_sharing {α α' : Type} {Q : α → α' → Prop} {r : Except Failure α × Progress}
    {r' : Except Failure α' × Progress} (h : (sharing K S R).Agree Q r r') :
    Outcome.Paired Q r.1 r'.1 ∧ Sharing K S R r.2 r'.2 := by
  cases h with
  | ok value linked => exact ⟨.ok value, linked⟩
  | error linked => exact ⟨.error, linked⟩
  | left excused => exact absurd excused id
  | right excused => exact absurd excused id

theorem sharing_steady (h : ∀ t,
    (sharing K S R).Alike Eq (escapedPattern (.text t)) (escapedPattern (.text t))) :
    (sharing K S R).Steady := by
  refine .of_sessions (fun hpq => hpq.session) (fun f log log' hpq hf => ?_) (escapedPattern_alike h)
  refine ⟨congrArg f hpq.session, ?_, hpq.patterns, fun hname => hpq.schemas ?_⟩
  · rw [hf]
    exact hpq.name
  · rw [← hf]
    exact hname

theorem sharing_own_steady : (sharing K BothOwn R).Steady := by
  refine sharing_steady fun t p q hpq => ?_
  obtain ⟨patterns, hp, hl⟩ := run_escapedPattern (t := t) hpq.patterns.1
  obtain ⟨patterns', hq, hr⟩ := run_escapedPattern (t := t) hpq.patterns.2
  rw [hl, hr]
  exact .ok rfl ⟨hpq.session, hpq.name, ⟨hp, hq⟩, hpq.schemas⟩

/-- Two computations that are looked up in a session without a name: what is found in both caches has
to be good enough, and what is filed in them has to be in their relation. -/
theorem cached_sharing {act act' : Compile Expression} {Q : Expression → Expression → Prop}
    {key : String} (hact : (sharing K S R).Alike Q act act') (hget : ∀ e e', R key e e' → Q e e')
    (hset : ∀ p q p' e e', Sharing K S R p q → p.session.name = none →
      act.run p = (.ok e, p') → Q e e' → R key e e') {p q : Progress} (hpq : Sharing K S R p q)
    (hname : p.session.name = none) :
    (sharing K S R).Agree Q ((cached key act).run p) ((cached key act').run q) := by
  rcases (hpq.schemas hname).find key with
    ⟨e, e', schemas, schemas', hl, hr, he, hlinked⟩ | ⟨hl, hr⟩
  · rw [run_cached_hit hl, run_cached_hit hr]
    exact .ok (hget e e' he) ⟨hpq.session, hpq.name, hpq.patterns, fun _ => hlinked⟩
  · have hagree := hact p q hpq
    rcases hp : act.run p with ⟨a, p'⟩
    rcases hq : act'.run q with ⟨b, q'⟩
    rw [hp, hq] at hagree
    cases hagree with
    | ok he hlinked =>
      rw [run_cached_ok hl hp, run_cached_ok hr hq]
      refine .ok he ⟨hlinked.session, hlinked.name, hlinked.patterns, fun hname' => ?_⟩
      exact (hlinked.schemas hname').set (hset p q p' _ _ hpq hname hp he)
    | error hlinked =>
      rw [run_cached_error hl hp, run_cached_error hr hq]
      exact .error hlinked
    | left hexcused => exact absurd hexcused id
    | right hexcused => exact absurd hexcused id

section Lookups

variable {P : Prop} {env env' : Environment} {refer refer' : Refer} {inner inner' : Inner}
  {schema : Fields} {top branch : Bool}

/-- **A schema object, looked up or compiled: what is in both caches has to be good enough, and what
goes into them has to be in their relation.** -/
theorem compileCached_sharing (hS : (sharing K S R).Steady) (henv : ReadsAs env env')
    (hr : ReferAlike (sharing K S R) P refer refer')
    (hnull : P → env.context.defaultNullable.isSet = env'.context.defaultNullable.isSet)
    (h : ∀ fields, visibleFields env schema = .ok fields →
      InnerAlike (sharing K S R) P (PartOf fields) inner inner')
    (hkey : cacheKey env' schema top branch = cacheKey env schema top branch)
    (hget : ∀ key, cacheKey env schema top branch = .ok key → namesUncached key = false →
      ∀ e e', R key e e' → FieldsMatched P schema top branch e e')
    (hset : ∀ key, cacheKey env schema top branch = .ok key → namesUncached key = false →
      ∀ p q p' e e', Sharing K S R p q → p.session.name = none →
        (compileFields env refer inner schema top branch).run p = (.ok e, p') →
        FieldsMatched P schema top branch e e' → R key e e') :
    (sharing K S R).Alike (FieldsMatched P schema top branch)
      (compileCached env refer inner schema top branch)
      (compileCached env' refer' inner' schema top branch) := by
  have hfields : (sharing K S R).Alike (FieldsMatched P schema top branch)
      (compileFields env refer inner schema top branch)
      (compileFields env' refer' inner' schema top branch) :=
    compileFields_alike hS henv hr hnull h
  intro p q hpq
  cases hk : cacheKey env schema top branch with
  | error f =>
    rw [run_compileCached_error hk, run_compileCached_error (hkey.trans hk)]
    exact .error hpq
  | ok key =>
    cases hskip : p.session.name.isSome || namesUncached key with
    | true =>
      rw [run_compileCached_skip hk hskip]
      rw [hpq.session] at hskip
      rw [run_compileCached_skip (hkey.trans hk) hskip]
      exact hfields p q hpq
    | false =>
      obtain ⟨hname, huncached⟩ := Bool.or_eq_false_iff.mp hskip
      replace hname : p.session.name = none := by simpa using hname
      rw [run_compileCached_look hk hskip]
      rw [hpq.session] at hskip
      rw [run_compileCached_look (hkey.trans hk) hskip]
      exact cached_sharing hfields (hget key hk huncached) (hset key hk huncached) hpq hname

end Lookups

end Compile

end SchemaForge
