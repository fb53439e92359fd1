import SchemaForge.Proofs.Compile.CacheKey
import SchemaForge.Proofs.Compile.FilteredCompositions
import SchemaForge.Proofs.Compile.Transparency

/-!
# Filtering all at once or on the way

A schema that declares properties is filtered at once, any other on the way, schema by schema. By
induction on the levels left, the two give the same where compositions see the same in their branches
before filtering and afterwards. In a session with a name no schema is looked up in the cache, so that
there the runs are the same from the first step to the last.
-/

namespace SchemaForge.Compile

open Reference Schema Visibility

variable {env : Environment} {inner : Inner} {refer : Refer} {top branch : Bool}

/-! ## Schema objects -/

/-- **A schema without properties, compiled as it is and compiled after filtering.** -/
theorem Undeclared.fields_eq {schema schema' : Fields} (h : Undeclared env schema schema')
    (hvis : env.context.visibility ≠ .all) (hinner : Blind env inner) :
    compileFields env refer inner schema' top branch =
      compileFields env refer inner schema top branch := by
  have hvisible : visibleFields env schema = .ok schema := by
    unfold visibleFields
    rw [if_neg (by simp [h.properties])]
    rfl
  have hvisible' : visibleFields env schema' = .ok schema' := by
    unfold visibleFields
    rw [if_neg (by simp [h.has, h.properties])]
    rfl
  have hnullable : ∀ default, isNullable schema' default = isNullable schema default := by
    intro default
    simp (disch := decide) only [isNullable, explicitNullable, h.value]
  have hdefault : defaultApplies schema' top branch = defaultApplies schema top branch := by
    simp only [defaultApplies, h.has]
  have hpaired := h.classify_paired
  unfold compileFields
  rw [hvisible, hvisible']
  show ((liftM (classify schema') : Compile Form) >>= _) = (liftM (classify schema) : Compile Form) >>= _
  generalize hform : classify schema = outcome at hpaired ⊢
  generalize classify schema' = outcome' at hpaired ⊢
  cases hpaired with
  | error => rfl
  | @ok form form' hforms =>
      show compileClassified env refer inner schema' top branch form' =
        compileClassified env refer inner schema top branch form
      cases hforms with
      | single hsingle =>
        have hclassified : ∀ s, compileClassified env refer inner s top branch form = (do
            let default := defaultApplies s top branch && env.context.defaultNullable.isSet
            let e ← compileForm env refer inner s top form
            return e.nullableIf (isNullable s default)) := by
          intro s
          cases form <;> first | rfl | cases hsingle
        simp only [hclassified, hdefault, hnullable, h.form_eq hinner hform]
      | allOf hwalk hwalk' hfiltered =>
        unfold compileClassified
        simp only [hnullable, h.allOf_eq hvis hinner hwalk hwalk' hfiltered, h.checkUnevaluated_eq]
      | union hwalk hwalk' hfiltered htold =>
        unfold compileClassified
        simp only [hnullable, h.has, h.union_eq hinner hwalk hwalk' hfiltered htold,
          h.checkUnevaluated_eq]

/-- **Twins are compiled to the same where schemas inside them are.** -/
theorem Twins.fields_eq {schema schema' : Fields} (h : Twins env (.object schema) (.object schema'))
    (hvis : env.context.visibility ≠ .all) (hinner : Blind env inner) :
    compileFields env refer inner schema' top branch =
      compileFields env refer inner schema top branch := by
  have hcongr : ∀ {s s' : Fields}, visibleFields env s' = visibleFields env s →
      compileFields env refer inner s' top branch = compileFields env refer inner s top branch := by
    intro s s' hs
    unfold compileFields
    rw [hs]
  generalize hv : Value.object schema = v at h
  generalize hv' : Value.object schema' = v' at h
  cases h with
  | same =>
    rw [← hv] at hv'
    rw [Value.object.inj hv']
  | visible named named' hvisible =>
    cases hv
    cases hv'
    exact hcongr hvisible
  | filtered hfiltered hnamed hsettled =>
    subst hv hv'
    rcases filterSchema_cases hfiltered with hsame | ⟨fields, after, hfields, hafter, href, hleft⟩
    · rw [Value.object.inj hsame]
    cases hfields
    cases hafter
    cases hproperties : schema.has "properties" with
    | true =>
      have hproperties' : schema'.has "properties" = true := by
        rw [hleft.has (by decide), hproperties]
      refine hcongr ?_
      rw [visibleFields_of_properties hvis hproperties, visibleFields_of_properties hvis hproperties',
        hfiltered, (filterSchema_stable hfiltered).again]
    | false =>
      cases hsettled with
      | noObject leaf => exact absurd rfl (leaf _)
      | reference refers =>
        rw [refers] at href
        cases href
      | declared declares =>
        rw [declares] at hproperties
        cases hproperties
      | undeclared outlook items branches properties =>
        have hinside : env.context.visibility.filterFields schema = .ok schema' := by
          cases hleft with
          | plain undeclared inside => exact inside
          | declared inside before after visible walked names =>
            rw [Fields.value_eq_null (by simp [hproperties])] at before
            cases before
        have hundeclared : Undeclared env schema schema' :=
          ⟨hproperties, href, hinside, hnamed, outlook _ hinside, items, branches, properties⟩
        exact hundeclared.fields_eq hvis hinner

theorem Twins.objects {v v' : Value} (h : Twins env v v') :
    v' = v ∨ ∃ schema schema', v = .object schema ∧ v' = .object schema' := by
  cases h with
  | same => exact Or.inl rfl
  | visible => exact Or.inr ⟨_, _, rfl, rfl⟩
  | filtered hfiltered =>
    exact (filterSchema_cases hfiltered).imp_right fun ⟨fields, after, hv, hv', _⟩ =>
      ⟨fields, after, hv, hv'⟩

theorem Twins.named {schema schema' : Fields} (h : Twins env (.object schema) (.object schema')) :
    schema' = schema ∨ (Fields.textNamed schema = true ∧ Fields.textNamed schema' = true) := by
  generalize hv : Value.object schema = v at h
  generalize hv' : Value.object schema' = v' at h
  cases h with
  | same =>
    rw [← hv] at hv'
    exact Or.inl (Value.object.inj hv')
  | visible named named' _ =>
    cases hv
    cases hv'
    exact Or.inr ⟨named, named'⟩
  | filtered hfiltered hnamed _ =>
    subst hv hv'
    exact Or.inr ⟨hnamed, (filterSchema_stable hfiltered).textNamed hnamed⟩

/-! ## Without the cache -/

/-- The key of a schema that can be written fails as the options do, if at all. -/
theorem cacheKey_of_textNamed {schema : Fields} (h : Fields.textNamed schema = true) :
    Outcome.Paired (fun _ _ => True)
      (Json.writeValues Json.canonical (keyFields env [] top branch).tail)
      (cacheKey env schema top branch) := by
  obtain ⟨t, ht⟩ : ∃ t, Json.write Json.canonical (.object schema) = .ok t := Json.exists_write h
  have hkey : cacheKey env schema top branch = Json.write Json.canonical
      (.object ((.text "schema", .object schema) :: (keyFields env [] top branch).tail)) := rfl
  rw [hkey]
  cases hoptions : Json.writeValues Json.canonical (keyFields env [] top branch).tail with
  | error f =>
    rw [Json.write, Json.writeValues, ht, hoptions]
    exact .error
  | ok parts =>
    have hall : Json.writeValues Json.canonical
        ((.text "schema", .object schema) :: (keyFields env [] top branch).tail) =
          .ok ((.text "schema", t) :: parts) := by
      rw [Json.writeValues, ht, hoptions]
      rfl
    obtain ⟨key, hkey⟩ := Json.exists_write_object hall fun p hp => by
      obtain ⟨f, hf, hname, -⟩ := Outcome.exists_left_of_mem (Json.forall₂_writeValues hall) hp
      rw [← hname]
      simp only [keyFields, List.tail_cons, List.mem_cons, List.not_mem_nil, or_false] at hf
      rcases hf with rfl | rfl | rfl | rfl | rfl | rfl | rfl <;> exact ⟨_, rfl⟩
    rw [hkey]
    exact .ok trivial

/-- Where the names of both are texts, one has a key if the other does. -/
theorem cacheKey_paired {schema schema' : Fields} (h : Fields.textNamed schema = true)
    (h' : Fields.textNamed schema' = true) :
    Outcome.Paired (fun _ _ => True) (cacheKey env schema top branch)
      (cacheKey env schema' top branch) := by
  have hkey : Outcome.Paired _ _ (cacheKey env schema top branch) := cacheKey_of_textNamed h
  have hkey' : Outcome.Paired _ _ (cacheKey env schema' top branch) := cacheKey_of_textNamed h'
  generalize Json.writeValues Json.canonical (keyFields env [] top branch).tail = options at hkey hkey'
  generalize cacheKey env schema top branch = key at hkey ⊢
  generalize cacheKey env schema' top branch = key' at hkey' ⊢
  cases hkey with
  | ok =>
    cases hkey'
    exact .ok trivial
  | error =>
    cases hkey'
    exact .error

/-- **By induction on the levels left: twins are compiled to the same without the cache.** -/
theorem compilePlain_twins (hvis : env.context.visibility ≠ .all) :
    ∀ (levels : Nat) {v v' : Value} (top branch : Bool), Twins env v v' →
      compilePlain env top branch levels v' = compilePlain env top branch levels v := by
  intro levels
  induction levels with
  | zero =>
    intro v v' top branch h
    rcases h.objects with rfl | ⟨schema, schema', rfl, rfl⟩
    · rfl
    · rfl
  | succ levels ih =>
    intro v v' top branch h
    rcases h.objects with rfl | ⟨schema, schema', rfl, rfl⟩
    · rfl
    have hinner : Blind env (plainWithin env levels) := fun v v' branch h => ih false branch h
    have hfields : compileFields env (compileReference env) (plainWithin env levels) schema' top
          branch =
        compileFields env (compileReference env) (plainWithin env levels) schema top branch :=
      h.fields_eq hvis hinner
    rcases h.named with rfl | ⟨hnamed, hnamed'⟩
    · rfl
    show nested (compileUncached env (plainWithin env levels) schema' top branch) =
      nested (compileUncached env (plainWithin env levels) schema top branch)
    unfold compileUncached
    rw [hfields]
    have hkey : Outcome.Paired (fun _ _ => True) (cacheKey env schema top branch)
        (cacheKey env schema' top branch) := cacheKey_paired hnamed hnamed'
    generalize cacheKey env schema top branch = key at hkey ⊢
    generalize cacheKey env schema' top branch = key' at hkey ⊢
    cases hkey with
    | ok => rfl
    | error => rfl

/-! ## Sessions with a name -/

/-- One and the same progress, in a session with a name. -/
def named : Comparison where
  linked p q := p = q ∧ p.session.name.isSome = true

/-- Whatever keeps the name of the session runs as itself. -/
theorem named_self {α : Type} {a : Compile α} (h : ∀ p, (a.run p).2.session.name = p.session.name) :
    named.Alike Eq a a := by
  rintro p _ ⟨rfl, hp⟩
  have hname := h p
  generalize a.run p = r at hname ⊢
  obtain ⟨result, q⟩ := r
  replace hname : q.session.name = p.session.name := hname
  cases result with
  | ok x => exact .ok rfl ⟨rfl, by rw [hname, hp]⟩
  | error f => exact .error ⟨rfl, by rw [hname, hp]⟩

theorem named_steady : named.Steady := by
  have hquiet : ∀ {a : Compile Unit}, Quiet a → named.Alike Eq a a := by
    refine fun ha => named_self fun p => ?_
    obtain ⟨q, hq, hname, -⟩ := ha p
    rw [hq, hname]
  exact {
    name_eq := fun hpq => by rw [hpq.1]
    deeper := fun hpq => ⟨congrArg _ hpq.1, hpq.2⟩
    shallower := fun hpq => ⟨congrArg _ hpq.1, hpq.2⟩
    report := fun records => hquiet (quiet_report records)
    addDependency := fun name => hquiet (quiet_addDependency name)
    addConflict := fun conflict => hquiet (quiet_addConflict conflict)
    addWarning := fun message => hquiet (quiet_addWarning message)
    escapedPattern := escapedPattern_alike fun t => named_self fun p => by
      rcases hfind : p.caches.patterns.find t with ⟨found, patterns⟩
      cases found with
      | some escaped =>
        rw [run_escapedPattern_hit hfind]
        rfl
      | none =>
        rw [run_escapedPattern_miss hfind]
        rfl }

/-- **In a session with a name a schema is compiled as without the cache.** -/
theorem compileWithin_named : ∀ (levels : Nat) (v : Value) (top branch : Bool),
    named.Alike Eq (compileWithin env (compileReference env) top branch levels v)
      (compilePlain env top branch levels v) := by
  intro levels
  induction levels with
  | zero =>
    intro v top branch
    by_cases hv : ∃ schema, v = .object schema
    · obtain ⟨schema, rfl⟩ := hv
      exact fun p q hpq => by
        obtain ⟨rfl, hp⟩ := hpq
        exact .error ⟨rfl, hp⟩
    · rw [compileWithin_leaf (not_exists.mp hv), compilePlain_leaf (not_exists.mp hv)]
      exact compileLeaf_alike named_steady v
  | succ levels ih =>
    intro v top branch
    by_cases hv : ∃ schema, v = .object schema
    · obtain ⟨schema, rfl⟩ := hv
      refine named_steady.nested ?_
      have hfields : named.Alike Eq
          (compileFields env (compileReference env) (within env (compileReference env) levels) schema
            top branch)
          (compileFields env (compileReference env) (plainWithin env levels) schema top branch) :=
        (compileFields_alike named_steady (.refl env) (compileReference_alike named_steady)
          (fun _ => rfl) fun fields _ => innerAlike_of_eq fun w branch _ => ih w false branch).mono
          fun e e' he => he.eq trivial
      rintro p q ⟨rfl, hp⟩
      cases hkey : cacheKey env schema top branch with
      | error f =>
        rw [run_compileCached_error hkey]
        unfold compileUncached
        rw [hkey]
        exact .error ⟨rfl, hp⟩
      | ok key =>
        rw [run_compileCached_skip hkey (by rw [hp]; rfl)]
        unfold compileUncached
        rw [hkey]
        exact hfields p p ⟨rfl, hp⟩
    · rw [compileWithin_leaf (not_exists.mp hv), compilePlain_leaf (not_exists.mp hv)]
      exact compileLeaf_alike named_steady v

theorem run_compileSchema_named {p : Progress} (hp : p.session.name.isSome = true) (v : Value) :
    (compileSchema env v top branch).run p =
      (compilePlain env top branch (levelsFor env p.session.depth v) v).run p := by
  rw [run_compileSchema]
  have hagree : named.Agree Eq
      ((compileWithin env (compileReference env) top branch (levelsFor env p.session.depth v) v).run p)
      ((compilePlain env top branch (levelsFor env p.session.depth v) v).run p) :=
    compileWithin_named _ v top branch p p ⟨rfl, hp⟩
  generalize (compileWithin env (compileReference env) top branch _ v).run p = r at hagree ⊢
  generalize (compilePlain env top branch _ v).run p = r' at hagree ⊢
  cases hagree with
  | ok value linked => rw [value, linked.1]
  | error linked => rw [linked.1]
  | left excused => exact absurd excused id
  | right excused => exact absurd excused id

/--
**A schema compiles to what the filtered schema does, if compositions see no difference.** Without
the cache the two are one and the same computation, on any number of levels and in every session. In a
session with a name, where there is no cache of schemas, they end in the same expression or failure
and leave the same session, conflicts and warnings included.
-/
theorem compileSchema_filter {v v' : Value} (hfilter : env.context.visibility.filter v = .ok v')
    (hnamed : v.textNamed = true) (hsettled : Settled env v) (top branch : Bool) :
    (∀ levels, compilePlain env top branch levels v' = compilePlain env top branch levels v) ∧
      ∀ limit p, env.context.depthLimit = .atMost limit → p.session.name.isSome = true →
        (compileSchema env v' top branch).run p = (compileSchema env v top branch).run p := by
  have hplain : ∀ levels,
      compilePlain env top branch levels v' = compilePlain env top branch levels v := by
    by_cases hvis : env.context.visibility = .all
    · rw [hvis] at hfilter
      cases hfilter
      exact fun _ => rfl
    · have hfiltered : env.context.visibility.filterSchema v = .ok v' := by
        unfold Visibility.filter at hfilter
        split at hfilter
        · rename_i hall
          exact absurd hall hvis
        · exact hfilter
      have htwins := Twins.filtered hfiltered hnamed hsettled
      exact fun levels => compilePlain_twins hvis levels top branch htwins
  refine ⟨hplain, fun limit p hlimit hp => ?_⟩
  have hlevels : levelsFor env p.session.depth v' = levelsFor env p.session.depth v := by
    rw [levelsFor, levelsFor, hlimit]
  rw [run_compileSchema_named hp, run_compileSchema_named hp, hlevels, hplain]

/-- A person with a name and maybe an `id` that requests do not show. -/
def person (hidden : Fields) (required : List Value) : Value :=
  .object [(.text "type", .text "object"), (.text "properties", .object
    (hidden ++ [(.text "name", .object [(.text "type", .text "string")])])),
    (.text "required", .list required)]

/-- A flagged definition of a property. -/
def readOnly (type : String) : Value :=
  .object [(.text "type", .text type), (.text "readOnly", .bool true)]

/-- A composition with a person. -/
def account (person : Value) : Fields :=
  [(.text "allOf", .list [person, .object [(.text "type", .text "object"), (.text "properties",
    .object [(.text "age", .object [(.text "type", .text "integer")])])]])]

theorem settled_account {env : Environment} (hvis : env.context.visibility = .request)
    (hschemas : env.schemas = []) : Settled env (.object (account (person
      [(.text "id", readOnly "string")] [.text "id", .text "name"]))) := by
  have hfilter : Visibility.request.filterFields (account (person
      [(.text "id", readOnly "string")] [.text "id", .text "name"])) =
      .ok (account (person [] [.text "name"])) := rfl
  refine .undeclared ?_ ?_ ?_ ?_
  · intro schema' hfiltered
    rw [hvis, hfilter] at hfiltered
    cases hfiltered
    refine ⟨?_, ?_, ?_⟩
    · rintro branches branches' hwalk hwalk' -
      cases hwalk
      cases hwalk'
      rw [hschemas]
      decide +kernel
    · rintro (_ | _) branches branches' discriminator hwalk <;> cases hwalk
    · rintro (hrule | hrule) <;> cases hrule
  · exact .noObject nofun
  · intro k hk branches hwalk b hb
    simp only [compositionKeywords, List.mem_cons, List.not_mem_nil, or_false] at hk
    rcases hk with rfl | rfl | rfl
    · cases hwalk
      simp only [List.mem_cons, List.not_mem_nil, or_false] at hb
      rcases hb with rfl | rfl <;> exact .declared rfl
    · cases hwalk
    · cases hwalk
  · intro branches hwalk fields hfields _ properties hproperties f hf _
    cases hwalk
    cases List.mem_singleton.mp hfields
    cases hproperties
    cases List.mem_singleton.mp hf
    exact .of_plain (by decide)

theorem compileSchema_filter_account :
    ∃ env p, Environment.ofConfig { visibility := .request } [] = .ok env ∧
      p.session.name = some "Account" ∧
      env.context.visibility.filter (.object (account (person
        [(.text "id", readOnly "string")] [.text "id", .text "name"]))) =
        .ok (.object (account (person [] [.text "name"]))) ∧
      (compileSchema env (.object (account (person [] [.text "name"]))) true false).run p =
        (compileSchema env (.object (account (person
          [(.text "id", readOnly "string")] [.text "id", .text "name"]))) true false).run p := by
  obtain ⟨env, henv, hvis, hschemas, hlimit⟩ : ∃ env,
      Environment.ofConfig { visibility := .request } [] = .ok env ∧
        env.context.visibility = .request ∧ env.schemas = [] ∧
        env.context.depthLimit = .atMost 100 := ⟨_, rfl, rfl, rfl, by decide +kernel⟩
  have hfilter : env.context.visibility.filter (.object (account (person
      [(.text "id", readOnly "string")] [.text "id", .text "name"]))) =
      .ok (.object (account (person [] [.text "name"]))) := by
    rw [hvis]
    rfl
  exact ⟨env, ⟨{ name := some "Account" }, env.caches, []⟩, henv, rfl, hfilter,
    (compileSchema_filter hfilter (by decide) (settled_account hvis hschemas) true false).2 100 _
      hlimit rfl⟩

/-- A union with a discriminator of which the first branch is given. -/
def toldByKind (first : Fields) : Value :=
  .object [(.text "oneOf", .list [.object first, .object [(.text "type", .text "object"),
      (.text "properties", .object [(.text "kind", .object [(.text "type", .text "string")])]),
      (.text "required", .list [.text "kind"])]]),
    (.text "discriminator", .object [(.text "propertyName", .text "kind")])]

/-- An object whose `kind` requests do not show, and what filtering leaves of it. -/
def hiddenKind : Fields :=
  [(.text "type", .text "object"), (.text "properties", .object [(.text "kind", readOnly "string")]),
   (.text "required", .list [.text "kind"])]

def shownKind : Fields := [(.text "type", .text "object"), (.text "properties", .object [])]

/-- A discriminator that requests do not show still tells the branches of a union apart, unless they
are filtered before. -/
theorem compileSchema_not_filter :
    ∃ env p, Environment.ofConfig { visibility := .request } [] = .ok env ∧
      p.session.name = some "Kinds" ∧
      env.context.visibility.filter (toldByKind hiddenKind) = .ok (toldByKind shownKind) ∧
      ((compileSchema env (toldByKind hiddenKind) true false).run p).2.session.warnings = [] ∧
      ((compileSchema env (toldByKind shownKind) true false).run p).2.session.warnings =
        [discriminatorWarning (.text "kind") (some "Kinds")] ∧
      ((compileSchema env (toldByKind shownKind) true false).run p).1 ≠
        ((compileSchema env (toldByKind hiddenKind) true false).run p).1 := by
  obtain ⟨env, henv, hfilter, hnone, hwarnings, hprinted⟩ : ∃ env,
      Environment.ofConfig { visibility := .request } [] = .ok env ∧
      env.context.visibility.filter (toldByKind hiddenKind) = .ok (toldByKind shownKind) ∧
      ((compileSchema env (toldByKind hiddenKind) true false).run
          ⟨{ name := some "Kinds" }, env.caches, []⟩).2.session.warnings = [] ∧
      ((compileSchema env (toldByKind shownKind) true false).run
          ⟨{ name := some "Kinds" }, env.caches, []⟩).2.session.warnings =
        [discriminatorWarning (.text "kind") (some "Kinds")] ∧
      (((compileSchema env (toldByKind shownKind) true false).run
          ⟨{ name := some "Kinds" }, env.caches, []⟩).1.toOption.map fun e => e.toNode.print 0) ≠
        ((compileSchema env (toldByKind hiddenKind) true false).run
          ⟨{ name := some "Kinds" }, env.caches, []⟩).1.toOption.map fun e => e.toNode.print 0 :=
    ⟨_, rfl, rfl, by decide +kernel, by decide +kernel, by decide +kernel⟩
  exact ⟨env, _, henv, rfl, hfilter, hnone, hwarnings, fun hsame => hprinted (by rw [hsame])⟩

end SchemaForge.Compile
