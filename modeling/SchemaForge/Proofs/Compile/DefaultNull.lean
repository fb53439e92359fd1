import SchemaForge.Proofs.Compile.CacheKey
import SchemaForge.Proofs.Compile.Deferral
import SchemaForge.Proofs.Compile.History

/-!
# The default for null

The default says whether values are nullable that do not say so themselves. It is compared by running
the compiler with two defaults from caches that agree as far as the default can show: definitions,
branches, enums, constants and compositions come out with one outline, since nothing that is decided
on the way looks at a value that follows the default.

A composition only follows its own word on null, and then null comes last in its chain.
-/

namespace SchemaForge

/-- The environment with another default for null. -/
def Environment.withDefaultNull (env : Environment) (default : Value) : Environment :=
  { env with context := { env.context with defaultNullable := default } }

namespace Compile

open Comparison Schema

variable {env : Environment} {default : Value} {schema schema' fields : Fields}
  {top top' branch branch' : Bool} {key : String} {form : Form}

/-! ## Two defaults -/

theorem readsAs_withDefaultNull (env : Environment) (default : Value) :
    ReadsAs env (env.withDefaultNull default) := ⟨rfl, rfl, rfl, rfl, rfl, rfl, rfl⟩

theorem compileReference_withDefaultNull :
    compileReference (env.withDefaultNull default) = compileReference env := rfl

theorem cacheKey_withDefaultNull :
    cacheKey (env.withDefaultNull default) schema top branch = cacheKey env schema top branch := rfl

theorem maxDepth_withDefaultNull :
    env.context.maxDepth = (env.withDefaultNull default).context.maxDepth := rfl

theorem levelsFor_withDefaultNull (depth : Nat) (v : Value) :
    levelsFor (env.withDefaultNull default) depth v = levelsFor env depth v := rfl

/-! ## Keys of schemas that ignore the default -/

/-- A composition has one of the keywords that keep schemas out of the cache. -/
theorem exists_uncached_of_isComposition (hform : classify schema = .ok form)
    (hcomposed : form.isComposition = true) : ∃ k ∈ uncachedKeywords, schema.has k = true := by
  cases formOf_of_classify hform with
  | allOf held walked => exact ⟨"allOf", by decide, Fields.has_of_get? held⟩
  | @union kind value branches discriminator held walked told =>
    exact ⟨kind.keyword, by cases kind <;> decide, Fields.has_of_get? held⟩
  | ofType =>
    rcases formOfType_cases schema with hf | ⟨_, hf⟩ | hf | hf | ⟨_, hf⟩ | hf
    all_goals
      rw [hf] at hcomposed
      cases hcomposed
  | severalTypes => cases hcomposed
  | reference => cases hcomposed
  | constant => cases hcomposed
  | enum => cases hcomposed
  | negation => cases hcomposed

/-- No composition is ever looked up. -/
theorem namesUncached_of_isComposition (hkey : cacheKey env schema top branch = .ok key)
    (hform : classify schema = .ok form) (hcomposed : form.isComposition = true) :
    namesUncached key = true := by
  obtain ⟨k, hk, hhas⟩ := exists_uncached_of_isComposition hform hcomposed
  exact namesUncached_of_has hkey hk hhas

/-- Of the schemas with one key that is used, all ignore the default or none does. -/
theorem ignoresDefault_of_cacheKey (hkey : cacheKey env schema top branch = .ok key)
    (hkey' : cacheKey env schema' top' branch' = .ok key) (huncached : namesUncached key = false)
    (h : IgnoresDefault schema top branch) : IgnoresDefault schema' top' branch' := by
  have hsame := sameKey_of_cacheKey hkey hkey'
  obtain ⟨t, ht, ht'⟩ := hsame.text
  rcases h with htop | hbranch | henum | hconst | ⟨form, hform, hcomposed⟩
  · exact Or.inl (hsame.top ▸ htop)
  · exact Or.inr (Or.inl (hsame.branch ▸ hbranch))
  · exact Or.inr (Or.inr (Or.inl (has_of_write ht ht' (by decide) henum)))
  · exact Or.inr (Or.inr (Or.inr (Or.inl (has_of_write ht ht' (by decide) hconst))))
  · rw [namesUncached_of_isComposition hkey hform hcomposed] at huncached
    cases huncached

/-! ## Compiling with two defaults -/

/-- Compiled schemas that caches filled with different defaults may hold for one key: they have one
outline if the schemas of the key ignore the default. -/
def CachedAlike (env : Environment) (key : String) (e e' : Expression) : Prop :=
  ∀ schema top branch, cacheKey env schema top branch = .ok key →
    IgnoresDefault schema top branch → e.outline = e'.outline

/-- Runs with different defaults. -/
def acrossDefaults (env : Environment) : Comparison := 
  sharing (fun _ => True) BothOwn (CachedAlike env)

theorem compileReference_acrossDefaults :
    ReferAlike (acrossDefaults env) False (compileReference env)
      (compileReference (env.withDefaultNull default)) := by
  rw [compileReference_withDefaultNull]
  exact compileReference_alike sharing_own_steady

/-- Schema objects, looked up or compiled. -/
theorem compileCached_acrossDefaults {inner inner' : Inner}
    (h : ∀ fields, visibleFields env schema = .ok fields →
      InnerAlike (acrossDefaults env) False (PartOf fields) inner inner') :
    (acrossDefaults env).Alike (FieldsMatched False schema top branch)
      (compileCached env (compileReference env) inner schema top branch)
      (compileCached (env.withDefaultNull default)
        (compileReference (env.withDefaultNull default)) inner' schema top branch) := by
  refine compileCached_sharing sharing_own_steady (readsAs_withDefaultNull env default)
    compileReference_acrossDefaults False.elim h cacheKey_withDefaultNull ?_ ?_
  · exact fun key hkey _ e e' he => ⟨False.elim, he schema top branch hkey⟩
  · intro key hkey huncached p q p' e e' _ _ _ he schema' top' branch' hkey' hignores
    exact he.outline (ignoresDefault_of_cacheKey hkey' hkey huncached hignores)

/-- Schemas of any depth. -/
theorem compileWithin_acrossDefaults (levels : Nat) (v : Value) (top branch : Bool) :
    (acrossDefaults env).Alike (SchemaMatched False top branch v)
      (compileWithin env (compileReference env) top branch levels v)
      (compileWithin (env.withDefaultNull default)
        (compileReference (env.withDefaultNull default)) top branch levels v) :=
  compileWithin_alike (D := fun _ => True) sharing_own_steady maxDepth_withDefaultNull
    (fun _ _ _ _ _ _ => trivial) (fun _ _ _ _ _ h => compileCached_acrossDefaults h) levels v top
    branch trivial

/-- **With two defaults a schema compiles alike: to one outline, if it ignores the default.** -/
theorem compileSchema_acrossDefaults (v : Value) (top branch : Bool) :
    (acrossDefaults env).Alike (SchemaMatched False top branch v) (compileSchema env v top branch)
      (compileSchema (env.withDefaultNull default) v top branch) := by
  intro p q hpq
  rw [run_compileSchema, run_compileSchema, levelsFor_withDefaultNull, ← hpq.session]
  exact compileWithin_acrossDefaults _ v top branch p q hpq

/-! ## Null in compositions -/

section Compositions

variable {inner : Inner} {refer : Refer} {e : Expression} {p q : Progress}

theorem isNullable_nullableIf (e : Expression) : (e.nullableIf true).isNullable = true := by
  simp [Expression.nullableIf, Expression.isNullable, Expression.andThen, Modifier.name]

theorem compileAllOf_nullable (branches : List Value) :
    Ends (fun e => e.isNullable = true) (compileAllOf env inner branches true) := by
  unfold compileAllOf
  split
  · exact .bind fun e => .pure (isNullable_nullableIf e)
  · refine .bind fun scan => .bind fun _ => ?_
    split
    · exact .fail _
    · refine .bind fun head => ?_
      dsimp only
      split
      all_goals exact .bind fun extensible => .bind fun m => .pure (isNullable_nullableIf _)

theorem compileUnion_nullable (kind : UnionKind) (branches : List Value)
    (discriminator mapping : Value) (admitting : Bool) :
    Ends (fun e => e.isNullable = true)
      (compileUnion env inner kind branches discriminator mapping true admitting) := by
  unfold compileUnion
  split
  · exact .bind fun s => .bind fun _ => .pure (isNullable_nullableIf _)
  · exact .bind fun e => .pure (isNullable_nullableIf e)
  · exact .bind fun r => .bind fun compiled => .pure (isNullable_nullableIf _)

/-- The check of unevaluated properties is put before a final `nullable`. -/
theorem checkUnevaluated_nullable (h : e.isNullable = true) :
    Ends (fun e => e.isNullable = true) (checkUnevaluated env inner schema e) := by
  unfold checkUnevaluated
  dsimp only
  rw [h]
  split
  · exact .bind fun names => .bind fun evaluated => .bind fun e => .pure (isNullable_nullableIf e)
  · exact .bind fun names => .bind fun evaluated => .bind fun e => .pure (isNullable_nullableIf e)
  · exact .pure h

theorem explicitNullable_visibleFields (h : visibleFields env schema = .ok fields) :
    explicitNullable fields = explicitNullable schema := by
  have hvalue : ∀ {k}, k ≠ "required" → k ∉ Reference.filteredKeywords →
      fields.value k = schema.value k := by
    intro k hk hf
    rw [Fields.value, get?_visibleFields_of_keyword h hk hf]
    rfl
  unfold explicitNullable
  rw [hvalue (by decide) (by decide), hvalue (by decide) (by decide)]

/-- **A composition that says it is nullable ends in `nullable`.** -/
theorem compileFields_nullable (hform : classify schema = .ok form)
    (hcomposed : form.isComposition = true) (hnull : explicitNullable schema = some true) :
    Ends (fun e => e.isNullable = true) (compileFields env refer inner schema top branch) := by
  intro p e q h
  unfold compileFields at h
  obtain ⟨fields, hfields, h⟩ := run_liftBind_eq_ok h
  obtain ⟨form', hform', h⟩ := run_liftBind_eq_ok h
  obtain ⟨visible, hvisible, hcomposed'⟩ := isComposition_visibleFields hfields hform hcomposed
  rw [hform'] at hvisible
  cases hvisible
  have htold : isNullable fields false = true := by
    rw [isNullable, explicitNullable_visibleFields hfields, hnull]
    rfl
  refine (?_ : Ends (fun e => e.isNullable = true)
    (compileClassified env refer inner fields top branch form')) p e q h
  cases form' with
  | allOf branches =>
    unfold compileClassified
    rw [htold]
    exact (compileAllOf_nullable branches).andThen fun e he => checkUnevaluated_nullable he
  | union kind branches discriminator mapping =>
    unfold compileClassified
    rw [htold]
    exact (compileUnion_nullable _ _ _ _ _).andThen fun e he => checkUnevaluated_nullable he
  | _ => cases hcomposed'

/-- The same for a whole schema, since no composition is ever looked up. -/
theorem compileSchema_nullable (hform : classify schema = .ok form)
    (hcomposed : form.isComposition = true) (hnull : explicitNullable schema = some true) :
    Ends (fun e => e.isNullable = true) (compileSchema env (.object schema) top branch) := by
  intro p e q h
  obtain ⟨k, hk, hhas⟩ := exists_uncached_of_isComposition hform hcomposed
  obtain ⟨levels, r, h, -⟩ := run_compileSchema_uncached hk hhas h
  exact compileFields_nullable hform hcomposed hnull _ _ _ h

end Compositions

/-! ## The default and null -/

/-- What two expressions have in common if only arguments tell them apart. -/
theorem SchemaMatched.shown {P : Prop} {v : Value} {e e' : Expression}
    (h : SchemaMatched P top branch v e e')
    (hignores : ∀ schema, v = .object schema → IgnoresDefault schema top branch) :
    e.callee = e'.callee ∧ e.modifierNames = e'.modifierNames := by
  have houtline : e.outline = e'.outline := by
    cases v with
    | object schema => exact h.outline (hignores schema rfl)
    | scalar s => exact congrArg Expression.outline h
    | list vs => exact congrArg Expression.outline h
  exact ⟨Expression.callee_congr houtline, congrArg Outline.names houtline⟩

/--
**The default for null touches neither definitions nor branches, and null comes last in
compositions.** With two defaults, and from caches that may differ in what does not count, a schema
that ignores the default compiles to the same constructor with the same modifiers and leaves the same
session, or fails in the same way; so does every definition. A composition that says it is nullable
ends in `nullable`, whatever is said about unevaluated properties.
-/
theorem default_null_ignored (env : Environment) (default : Value) :
    (∀ (v : Value) (top branch : Bool) (p q : Progress),
      (∀ schema, v = .object schema → IgnoresDefault schema top branch) → fromCaches.linked p q →
      Outcome.Paired (fun e e' => e.callee = e'.callee ∧ e.modifierNames = e'.modifierNames)
        ((compileSchema env v top branch).run p).1
        ((compileSchema (env.withDefaultNull default) v top branch).run q).1 ∧
      ((compileSchema env v top branch).run p).2.session =
        ((compileSchema (env.withDefaultNull default) v top branch).run q).2.session) ∧
    (∀ (name : String) (v : Value) (p q : Progress), EscapesOwn p.caches.patterns →
      EscapesOwn q.caches.patterns →
      Outcome.Paired
        (fun r r' => r.1.callee = r'.1.callee ∧ r.1.modifierNames = r'.1.modifierNames ∧ r.2 = r'.2)
        ((compileNamed env name v).run p).1
        ((compileNamed (env.withDefaultNull default) name v).run q).1) ∧
    ∀ (schema : Fields) (form : Form) (top branch : Bool) (p q : Progress) (e : Expression),
      classify schema = .ok form → form.isComposition = true →
      explicitNullable schema = some true →
      (compileSchema env (.object schema) top branch).run p = (.ok e, q) →
      e.modifierNames.getLast? = some "nullable" := by
  have hschema : ∀ (v : Value) (top branch : Bool) (p q : Progress),
      (∀ schema, v = .object schema → IgnoresDefault schema top branch) → fromCaches.linked p q →
      Outcome.Paired (fun e e' => e.callee = e'.callee ∧ e.modifierNames = e'.modifierNames)
        ((compileSchema env v top branch).run p).1
        ((compileSchema (env.withDefaultNull default) v top branch).run q).1 ∧
      ((compileSchema env v top branch).run p).2.session =
        ((compileSchema (env.withDefaultNull default) v top branch).run q).2.session := by
    intro v top branch p q hignores hpq
    have hlinked : (acrossDefaults env).linked p q := by
      refine Sharing.mono hpq fun key e e' he => ?_
      subst he
      exact fun _ _ _ _ _ => rfl
    have hagree : (acrossDefaults env).Agree
        (fun e e' => e.callee = e'.callee ∧ e.modifierNames = e'.modifierNames)
        ((compileSchema env v top branch).run p)
        ((compileSchema (env.withDefaultNull default) v top branch).run q) :=
      (compileSchema_acrossDefaults v top branch p q hlinked).mono fun e e' he => he.shown hignores
    obtain ⟨hresult, hleft⟩ := paired_of_sharing hagree
    exact ⟨hresult, hleft.session⟩
  refine ⟨hschema, fun name v p q hp hq => ?_, ?_⟩
  · obtain ⟨hresult, hsession⟩ := hschema v true false { p with session := { name := some name } }
      { q with session := { name := some name } } (fun _ _ => Or.inl rfl)
      ⟨rfl, trivial, ⟨hp, hq⟩, fun hname => by cases hname⟩
    rw [run_compileNamed, run_compileNamed, hsession]
    exact hresult.mapBoth _ fun e e' he => ⟨he.1, he.2, rfl⟩
  · intro schema form top branch p q e hform hcomposed hnull h
    have hlast := compileSchema_nullable hform hcomposed hnull p e q h
    exact (Expression.isNullable_iff e).mp hlast

/-- A nullable composition of two objects that allows no other properties. -/
def nullablePair : Fields :=
  [(.text "allOf", .list [
     .object [(.text "type", .text "object"),
       (.text "properties", .object [(.text "a", .object [(.text "type", .text "string")])])],
     .object [(.text "type", .text "object"),
       (.text "properties", .object [(.text "b", .object [(.text "type", .text "integer")])])]]),
   (.text "nullable", .bool true), (.text "unevaluatedProperties", .bool false)]

theorem default_null_ignored_nullablePair :
    ∃ env p e e', Environment.ofSchemas [] = .ok env ∧
      ((compileSchema env (.object nullablePair) false false).run p).1 = .ok e ∧
      ((compileSchema (env.withDefaultNull (.bool true)) (.object nullablePair) false false).run
        p).1 = .ok e' ∧
      e.toNode.print 0 ≠ e'.toNode.print 0 ∧
      e.callee = e'.callee ∧ e.modifierNames = e'.modifierNames ∧
      e.modifierNames.getLast? = some "nullable" := by
  obtain ⟨env, henv, hdiffer⟩ : ∃ env, Environment.ofSchemas [] = .ok env ∧
      ((((compileSchema env (.object nullablePair) false false).run
          ⟨{ name := some "A" }, env.caches, []⟩).1.toOption.bind fun e =>
        ((compileSchema (env.withDefaultNull (.bool true)) (.object nullablePair) false false).run
          ⟨{ name := some "A" }, env.caches, []⟩).1.toOption.map fun e' =>
        decide (e.toNode.print 0 ≠ e'.toNode.print 0)) = some true) :=
    ⟨_, rfl, by decide +kernel⟩
  have hignored := default_null_ignored env (.bool true)
  have hown := escapesOwn_start env
  obtain ⟨hpaired, -⟩ := hignored.1 (.object nullablePair) false false
    ⟨{ name := some "A" }, env.caches, []⟩ ⟨{ name := some "A" }, env.caches, []⟩
    (by rintro _ ⟨⟩; exact Or.inr (Or.inr (Or.inr (Or.inr ⟨_, rfl, rfl⟩))))
    ⟨rfl, trivial, ⟨hown, hown⟩, fun hname => by cases hname⟩
  obtain ⟨e, he, hdiffer⟩ := Option.bind_eq_some_iff.mp hdiffer
  obtain ⟨e', he', hdiffer⟩ := Option.map_eq_some_iff.mp hdiffer
  rw [Outcome.toOption_eq_some] at he he'
  have hlast := hignored.2.2 nullablePair _ false false ⟨{ name := some "A" }, env.caches, []⟩ _ e
    rfl rfl rfl (Prod.ext he rfl)
  rw [he, he'] at hpaired
  cases hpaired with
  | ok h => exact ⟨env, _, e, e', henv, he, he', of_decide_eq_true hdiffer, h.1, h.2, hlast⟩

end Compile

end SchemaForge
