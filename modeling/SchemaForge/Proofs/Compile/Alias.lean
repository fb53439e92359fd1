import SchemaForge.Proofs.Compile.Deferral

/-!
# Definitions of aliases

A reference to an alias is printed as a reference to what the alias stands for. That is right if the
definition of the alias, too, is nothing but a reference to it. Whether it is depends on keywords
that make no difference to whether a schema is an alias: several types, null among the values, a
constant, an enum, a reference of its own beside the branch, and a rule for unevaluated properties.
-/

namespace SchemaForge.Compile

open Reference Schema

/-! ## Bare references -/

/-- An expression that is nothing but a reference to a constant. -/
inductive IsRefTo (const : String) : Expression → Prop where
  | plain : IsRefTo const (plainRef const)
  | deferred {type : String} : IsRefTo const (deferredRef const type)

/-- An expression that is nothing but a reference. -/
def IsRef (e : Expression) : Prop := ∃ const, IsRefTo const e

/-- A name stands, through its aliases, for a schema with a constant. -/
def StandsFor (env : Environment) (n const : String) : Prop :=
  ∃ r, resolveAlias env.schemas n = .ok r ∧ env.constName r = .ok const

variable {const : String} {e : Expression}

theorem IsRef.modifiers_eq (h : IsRef e) : e.modifiers = [] := by
  obtain ⟨const, h⟩ := h
  cases h <;> rfl

theorem not_isRef_call {callee : String} {args : List Node} {ms : List Modifier} :
    ¬ IsRef ⟨.call callee args, ms⟩ := by
  rintro ⟨const, h⟩
  cases h

theorem isRef_nullableIf {nullable : Bool} :
    IsRef (e.nullableIf nullable) ↔ nullable = false ∧ IsRef e := by
  cases nullable with
  | false => simp [Expression.nullableIf]
  | true =>
    refine ⟨fun h => ?_, fun h => by cases h.1⟩
    have hmods := h.modifiers_eq
    simp [Expression.nullableIf, Expression.andThen] at hmods

namespace RefersTo

variable {env : Environment} {X R : String}

/-- An expression that refers to a schema is a reference to the constant of what this stands for. -/
theorem standsFor (h : RefersTo env X R e) :
    env.schemas.has R = true ∧ ∃ const, StandsFor env R const ∧ IsRefTo const e := by
  cases h with
  | deferred hknown hr hconst _ => exact ⟨hknown, _, ⟨_, hr, hconst⟩, .deferred⟩
  | plain hknown hr hconst _ => exact ⟨hknown, _, ⟨_, hr, hconst⟩, .plain⟩

theorem isRef (h : RefersTo env X R e) : IsRef e := by
  obtain ⟨-, const, -, he⟩ := h.standsFor
  exact ⟨const, he⟩

theorem isRefTo_iff (h : RefersTo env X R e) : IsRefTo const e ↔ StandsFor env R const := by
  obtain ⟨-, const', hstands, he⟩ := h.standsFor
  obtain ⟨r, hr, hconst⟩ := hstands
  constructor
  · intro h
    have heq : const = const' := by
      cases he <;> cases h <;> rfl
    rw [heq]
    exact ⟨r, hr, hconst⟩
  · rintro ⟨r', hr', hconst'⟩
    rw [hr] at hr'
    cases hr'
    rw [hconst] at hconst'
    cases hconst'
    exact he

end RefersTo

/-! ## What shapes a schema beside its reference -/

/-- A schema says nothing beside its reference that shapes it: it has one type at most and does not
let null pass. -/
structure Unshaped (schema : Fields) : Prop where
  types : (nonNullTypes schema).length ≤ 1
  nullable : isNullable schema false = false

/-- A schema has no rule for unevaluated properties, or one that lets all of them pass. -/
def AdmitsUnevaluated (schema : Fields) : Prop :=
  schema.value "unevaluatedProperties" ≠ .bool false ∧
    (schema.value "unevaluatedProperties").isObject = false

/-- Nothing stands between an alias and the reference of its branch. -/
structure Exposed (schema branch : Fields) : Prop where
  ref : schema.get? "$ref" = none
  const : schema.get? "const" = none
  enum : schema.get? "enum" = none
  unevaluated : AdmitsUnevaluated schema
  branch : Unshaped branch

/-! ## Runs of a definition -/

section Runs

variable {env : Environment} {refer : Refer} {inner : Inner} {schema : Fields} {top branch : Bool}
  {p q : Progress} {X : String}

/-- A schema object that is compiled under a name is compiled by its fields, one level deeper. -/
theorem run_compileWithin_object {levels : Nat} (hp : p.session.name = some X)
    (h : (compileWithin env refer top branch levels (.object schema)).run p = (.ok e, q)) :
    ∃ levels' q', (compileFields env refer
      (fun v branch => compileWithin env refer false branch levels' v) schema top branch).run
        p.deeper = (.ok e, q') := by
  cases levels with
  | zero => cases h
  | succ levels =>
    rw [compileWithin] at h
    obtain ⟨r, hcached, -⟩ := run_nested_eq_ok h
    obtain ⟨key, -, hrun⟩ := run_liftBind_eq_ok hcached
    obtain ⟨s, r', hs, hrun⟩ := run_bind_eq_ok hrun
    cases hs
    -- the session has a name, so the cache is not asked
    have hnamed : (p.deeper.session.name.isSome || namesUncached key) = true := by
      have hname : p.deeper.session.name = some X := hp
      rw [hname]
      rfl
    rw [if_pos hnamed] at hrun
    exact ⟨levels, r, hrun⟩

theorem visibleFields_eq (hkept : schema.has "properties" = false ∨ schema.has "$ref" = true) :
    visibleFields env schema = .ok schema := by
  unfold visibleFields
  split
  · rename_i hproperties
    have href : schema.has "$ref" = true :=
      hkept.resolve_left fun h => Bool.false_ne_true (h.symm.trans hproperties)
    have hfilter : env.context.visibility.filter (.object schema) = .ok (.object schema) := by
      unfold Visibility.filter
      split
      · rfl
      · rw [Visibility.filterSchema, if_pos href]
    rw [hfilter]
    rfl
  · rfl

/-- A schema whose properties are not filtered is compiled by its form. -/
theorem run_compileFields (hkept : schema.has "properties" = false ∨ schema.has "$ref" = true)
    (h : (compileFields env refer inner schema top branch).run p = (.ok e, q)) :
    ∃ form, classify schema = .ok form ∧
      (compileClassified env refer inner schema top branch form).run p = (.ok e, q) := by
  obtain ⟨fields, hfields, h⟩ := run_liftBind_eq_ok h
  rw [visibleFields_eq hkept] at hfields
  cases hfields
  exact run_liftBind_eq_ok h

theorem run_severalTypes {types : List Value}
    (h : (compileClassified env refer inner schema top branch (.severalTypes types)).run p =
      (.ok e, q)) : ¬ IsRef e := by
  obtain ⟨e', r, h', he⟩ := run_bind_eq_ok h
  obtain ⟨members, r', -, h'⟩ := run_bind_eq_ok h'
  cases h'
  cases he
  rw [isRef_nullableIf]
  exact fun h => not_isRef_call h.2

theorem run_constant {v : Value}
    (h : (compileClassified env refer inner schema top branch (.constant v)).run p = (.ok e, q)) :
    ¬ IsRef e := by
  cases h
  rw [isRef_nullableIf]
  exact fun h => not_isRef_call h.2

theorem run_enum {vs : List Value}
    (h : (compileClassified env refer inner schema top branch (.enum vs)).run p = (.ok e, q)) :
    ¬ IsRef e := by
  cases h
  rw [isRef_nullableIf]
  rintro ⟨-, h⟩
  unfold compileEnum at h
  split at h
  · exact not_isRef_call h
  · split at h
    · exact not_isRef_call h
    · exact not_isRef_call h

/-- The check of unevaluated properties leaves a reference alone only if there is nothing to
check. -/
theorem run_checkUnevaluated {e' : Expression}
    (h : (checkUnevaluated env inner schema e).run p = (.ok e', q)) :
    (IsRef e' ↔ AdmitsUnevaluated schema ∧ IsRef e) ∧ (IsRef e' → e' = e) := by
  have hchecked : ∀ {e : Expression} {args : List Node} {nullable : Bool},
      ¬ IsRef ((e.andThen "refine" args).nullableIf nullable) := by
    intro e args nullable h
    have hmods := (isRef_nullableIf.mp h).2.modifiers_eq
    simp [Expression.andThen] at hmods
  unfold checkUnevaluated at h
  unfold AdmitsUnevaluated
  dsimp only at h
  split at h
  · rename_i hv
    obtain ⟨names, -, h⟩ := run_liftBind_eq_ok h
    obtain ⟨evaluated, -, h⟩ := run_liftBind_eq_ok h
    cases h
    rw [hv]
    exact ⟨⟨fun h => absurd h hchecked, fun h => absurd rfl h.1.1⟩, fun h => absurd h hchecked⟩
  · rename_i rule hv
    obtain ⟨names, -, h⟩ := run_liftBind_eq_ok h
    obtain ⟨evaluated, -, h⟩ := run_liftBind_eq_ok h
    obtain ⟨checked, r, h, he⟩ := run_bind_eq_ok h
    obtain ⟨compiled, r', -, h⟩ := run_bind_eq_ok h
    cases h
    cases he
    rw [hv]
    refine ⟨⟨fun h => absurd h hchecked, fun h => ?_⟩, fun h => absurd h hchecked⟩
    exact absurd h.1.2 (by simp [Value.isObject])
  · rename_i hfalse hobject
    cases h
    refine ⟨⟨fun h => ⟨⟨hfalse, ?_⟩, h⟩, fun h => h.2⟩, fun _ => rfl⟩
    cases hv : schema.value "unevaluatedProperties" with
    | object rule => exact absurd hv (hobject rule)
    | scalar s => rfl
    | list vs => rfl

theorem defaultApplies_eq_false (hflag : (top || branch) = true) :
    defaultApplies schema top branch = false := by
  unfold defaultApplies
  rcases Bool.or_eq_true_iff.mp hflag with rfl | rfl <;> simp

/-- **A schema with a reference is compiled to a reference unless something shapes it.** -/
theorem run_reference {ref : Value} (href : schema.get? "$ref" = some ref)
    (hflag : (top || branch) = true) (hp : p.session.name = some X)
    (h : (compileFields env (compileReference env) inner schema top branch).run p = (.ok e, q)) :
    (IsRef e ↔ Unshaped schema) ∧
      (IsRef e → ∃ t, ref = .text t ∧ RefersTo env X (Naming.targetName t) e) := by
  obtain ⟨form, hform, h⟩ := run_compileFields (Or.inr (Fields.has_of_get? href)) h
  unfold classify at hform
  split at hform
  · rename_i htypes
    cases hform
    have hnot := run_severalTypes h
    refine ⟨⟨fun he => absurd he hnot, fun he => ?_⟩, fun he => absurd he hnot⟩
    have := he.types
    omega
  · rename_i htypes
    rw [href] at hform
    dsimp only at hform
    split at hform
    · rename_i t
      cases hform
      obtain ⟨e₀, r, he₀, h⟩ := run_bind_eq_ok h
      cases h
      have hrefers : RefersTo env X (Naming.targetName t) e₀ :=
        ((compileReference_same p hp).2 e₀ _ he₀).2
      rw [defaultApplies_eq_false hflag, Bool.false_and, isRef_nullableIf]
      refine ⟨⟨fun h => ⟨by omega, h.1⟩, fun h => ⟨h.nullable, hrefers.isRef⟩⟩, fun h => ?_⟩
      rw [h.1]
      exact ⟨t, rfl, hrefers⟩
    · cases hform

/-- A composition of a single branch with a reference. -/
theorem run_singleBranch {levels : Nat} {single : Fields} {ref : Value}
    (href : single.get? "$ref" = some ref) (hp : p.session.name = some X)
    (h : (compileClassified env (compileReference env)
      (fun v branch => compileWithin env (compileReference env) false branch levels v) schema top
      branch (.allOf [.object single])).run p = (.ok e, q)) :
    (IsRef e ↔ AdmitsUnevaluated schema ∧ isNullable schema false = false ∧ Unshaped single) ∧
      (IsRef e → ∃ t, ref = .text t ∧ RefersTo env X (Naming.targetName t) e) := by
  obtain ⟨e₁, r₁, h₁, h⟩ := run_bind_eq_ok h
  obtain ⟨e₀, r₀, h₀, h₁⟩ := run_bind_eq_ok h₁
  cases h₁
  obtain ⟨levels', q', h₀⟩ := run_compileWithin_object hp h₀
  have hp' : p.deeper.session.name = some X := hp
  obtain ⟨hiff₀, hrefers⟩ := run_reference href rfl hp' h₀
  obtain ⟨hiff, heq⟩ := run_checkUnevaluated h
  rw [isRef_nullableIf, hiff₀] at hiff
  refine ⟨hiff, fun he => ?_⟩
  obtain ⟨-, hnullable, hbranch⟩ := hiff.mp he
  rw [heq he, hnullable]
  exact hrefers (hiff₀.mpr hbranch)

/-- The form of an alias that has no reference of its own: its branch counts only if it has neither
several types nor a constant nor an enum. -/
theorem classify_alias {single : Fields} {form : Form} (hown : schema.get? "$ref" = none)
    (hsingle : schema.value "allOf" = .list [.object single])
    (hform : classify schema = .ok form) :
    (form = .severalTypes (nonNullTypes schema) ∧ 1 < (nonNullTypes schema).length) ∨
      (∃ v, form = .constant v ∧ schema.get? "const" = some v) ∨
      (∃ v vs, form = .enum vs ∧ schema.get? "enum" = some v) ∨
      (form = .allOf [.object single] ∧ (nonNullTypes schema).length ≤ 1 ∧
        schema.get? "const" = none ∧ schema.get? "enum" = none) := by
  unfold classify at hform
  split at hform
  · rename_i htypes
    cases hform
    exact Or.inl ⟨rfl, htypes⟩
  rename_i htypes
  rw [hown] at hform
  dsimp only at hform
  split at hform
  · rename_i v hv
    cases hform
    exact Or.inr (Or.inl ⟨v, rfl, hv⟩)
  rename_i hconst
  split at hform
  · rename_i v hv
    obtain ⟨vs, -, rfl⟩ := Outcome.map_eq_ok.mp hform
    exact Or.inr (Or.inr (Or.inl ⟨v, vs, rfl, hv⟩))
  rename_i henum
  have hallOf : schema.get? "allOf" = some (.list [.object single]) := by
    rw [← hsingle]
    exact Fields.get?_of_has (Fields.has_of_value_ne (by rw [hsingle]; simp))
  rw [hallOf] at hform
  cases hform
  exact Or.inr (Or.inr (Or.inr ⟨rfl, by omega, Option.eq_none_iff_forall_ne_some.mpr hconst,
    Option.eq_none_iff_forall_ne_some.mpr henum⟩))

/-- **The definition of an alias is compiled to a reference unless something shapes it: to its own
one, or else to the one of its branch.** -/
theorem run_alias {levels : Nat} {single : Fields} {ref : Value}
    (hproperties : schema.has "properties" = false)
    (hsingle : schema.value "allOf" = .list [.object single])
    (href : single.get? "$ref" = some ref) (hp : p.session.name = some X)
    (h : (compileFields env (compileReference env)
      (fun v branch => compileWithin env (compileReference env) false branch levels v) schema true
      false).run p = (.ok e, q)) :
    (IsRef e ↔ Unshaped schema ∧ (schema.has "$ref" = true ∨ Exposed schema single)) ∧
      (IsRef e → ∃ t, (schema.get? "$ref").getD ref = .text t ∧
        RefersTo env X (Naming.targetName t) e) := by
  cases hown : schema.get? "$ref" with
  | some own =>
    obtain ⟨hiff, hrefers⟩ := run_reference hown rfl hp h
    refine ⟨⟨fun he => ?_, fun he => hiff.mpr he.1⟩, hrefers⟩
    exact ⟨hiff.mp he, Or.inl (Fields.has_of_get? hown)⟩
  | none =>
    have hhas : ¬ schema.has "$ref" = true := by simp [Fields.has, hown]
    obtain ⟨form, hform, h⟩ := run_compileFields (Or.inl hproperties) h
    -- where the branch does not count, the schema is not exposed and the result is no reference
    have hnot : ¬ (Unshaped schema ∧ Exposed schema single) → ¬ IsRef e →
        (IsRef e ↔ Unshaped schema ∧ (schema.has "$ref" = true ∨ Exposed schema single)) ∧
          (IsRef e → ∃ t, Option.getD none ref = .text t ∧
            RefersTo env X (Naming.targetName t) e) := by
      intro hshaped he
      refine ⟨⟨fun h => absurd h he, ?_⟩, fun h => absurd h he⟩
      rintro ⟨hunshaped, hc | hexposed⟩
      · exact absurd hc hhas
      · exact absurd ⟨hunshaped, hexposed⟩ hshaped
    rcases classify_alias hown hsingle hform with ⟨rfl, htypes⟩ | ⟨v, rfl, hv⟩ | ⟨v, vs, rfl, hv⟩ |
      ⟨rfl, htypes, hconst, henum⟩
    · exact hnot (fun hc => absurd hc.1.types (by omega)) (run_severalTypes h)
    · refine hnot (fun hc => ?_) (run_constant h)
      rw [hc.2.const] at hv
      cases hv
    · refine hnot (fun hc => ?_) (run_enum h)
      rw [hc.2.enum] at hv
      cases hv
    · obtain ⟨hiff, hrefers⟩ := run_singleBranch href hp h
      refine ⟨⟨fun he => ?_, ?_⟩, hrefers⟩
      · obtain ⟨hadmits, hnullable, hbranch⟩ := hiff.mp he
        exact ⟨⟨htypes, hnullable⟩, Or.inr ⟨hown, hconst, henum, hadmits, hbranch⟩⟩
      · rintro ⟨hunshaped, hc | hexposed⟩
        · exact absurd hc hhas
        · exact hiff.mpr ⟨hexposed.unevaluated, hunshaped.nullable, hexposed.branch⟩

end Runs

/-! ## Definitions that mean what their aliases mean -/

/-- An alias is transparent: nothing but a reference shapes it, and if it has a reference of its own
beside its branch, then this one stands for the same constant. -/
def Transparent (env : Environment) (N : String) : Prop :=
  ∃ schema branch : Fields, env.schemas.value N = .object schema ∧
    schema.value "allOf" = .list [.object branch] ∧ Unshaped schema ∧
    (Exposed schema branch ∨ ∃ t const, schema.get? "$ref" = some (.text t) ∧
      StandsFor env (Naming.targetName t) const ∧ StandsFor env N const)

/-- **If the chain of an alias runs into no cycle, its definition is a bare reference to the constant
of what it stands for exactly if the alias is transparent.** -/
theorem compileNamed_alias_iff {env : Environment} {names : List String} {N : String}
    (hnamed : Named env.schemas names) (hN : N ∈ names)
    (halias : isAlias (env.schemas.value N) = true) (hfree : AliasFree env.schemas N)
    {p q : Progress} {s : Session}
    (he : (compileNamed env N (env.schemas.value N)).run p = (.ok (e, s), q)) :
    (∃ const, StandsFor env N const ∧ IsRefTo const e) ↔ Transparent env N := by
  obtain ⟨ref, href⟩ := Option.isSome_iff_exists.mp halias
  obtain ⟨schema, single, hv, hproperties, hsingle, hget⟩ := aliasTarget?_eq_some href
  obtain ⟨r, hrun, -⟩ := run_inSession_eq_ok he
  rw [hv] at hrun
  have hp : Option.some N = some N := rfl
  obtain ⟨levels, q', hfields⟩ := run_compileWithin_object hp hrun
  obtain ⟨hiff, hrefers⟩ := run_alias hproperties hsingle hget hp hfields
  constructor
  · rintro ⟨const, hstands, hconst⟩
    refine ⟨schema, single, hv, hsingle, ?_⟩
    obtain ⟨hunshaped, hown | hexposed⟩ := hiff.mp ⟨const, hconst⟩
    · obtain ⟨t, ht, hrefers⟩ := hrefers ⟨const, hconst⟩
      rw [Fields.get?_of_has hown, Option.getD_some] at ht
      rw [Fields.get?_of_has hown, ht]
      exact ⟨hunshaped, Or.inr ⟨t, const, rfl, hrefers.isRefTo_iff.mp hconst, hstands⟩⟩
    · exact ⟨hunshaped, Or.inl hexposed⟩
  · rintro ⟨schema', single', hv', hsingle', hunshaped, hcase⟩
    obtain rfl : schema = schema' := Value.object.inj (hv.symm.trans hv')
    rw [hsingle] at hsingle'
    cases hsingle'
    rcases hcase with hexposed | ⟨t, const, hown, ht, hstands⟩
    · obtain ⟨t, ht, hrefers⟩ := hrefers (hiff.mpr ⟨hunshaped, Or.inr hexposed⟩)
      rw [hexposed.ref, Option.getD_none] at ht
      rw [ht] at href
      obtain ⟨hknown, const, ⟨r, hr, hconst⟩, hto⟩ := hrefers.standsFor
      -- the branch is one step of the chain, so both stand for the same schema
      rw [← resolveAlias_step hnamed hN hfree ⟨t, href, rfl⟩ hknown] at hr
      exact ⟨const, ⟨r, hr, hconst⟩, hto⟩
    · have hhas := Fields.has_of_get? hown
      obtain ⟨t', ht', hrefers⟩ := hrefers (hiff.mpr ⟨hunshaped, Or.inl hhas⟩)
      rw [hown, Option.getD_some] at ht'
      cases ht'
      exact ⟨const, hstands, hrefers.isRefTo_iff.mpr ht⟩

/-- A schema and two aliases of it, one of which lets null pass. -/
def aliasSchemas : Fields :=
  [(.text "B", .object [(.text "type", .text "string")]),
   (.text "P", .object
     [(.text "allOf", .list [.object [(.text "$ref", .text "#/components/schemas/B")]])]),
   (.text "N", .object
     [(.text "allOf", .list [.object [(.text "$ref", .text "#/components/schemas/B")]]),
      (.text "nullable", .bool true)])]

theorem aliasFree_aliasSchemas {n : String} (h : AliasStep aliasSchemas n "B") :
    AliasFree aliasSchemas n := by
  refine aliasFree_of_step h (aliasFree_of_not_step ?_)
  rintro b ⟨t, ht, -⟩
  cases ht

theorem transparent_aliasSchemas {env : Environment} (h : env.schemas = aliasSchemas) :
    Transparent env "P" := by
  have hbranch : Unshaped [(.text "$ref", .text "#/components/schemas/B")] :=
    ⟨by decide, by decide⟩
  unfold Transparent
  rw [h]
  refine ⟨_, _, rfl, rfl, ⟨?_, ?_⟩, Or.inl ⟨rfl, rfl, rfl, ⟨?_, ?_⟩, hbranch⟩⟩ <;> decide

theorem compileNamed_alias_transparent :
    ∃ env p q e s, Environment.ofSchemas aliasSchemas = .ok env ∧
      (compileNamed env "P" (env.schemas.value "P")).run p = (.ok (e, s), q) ∧
      ∃ const, StandsFor env "P" const ∧ IsRefTo const e := by
  obtain ⟨env, henv, hschemas, p, q, e, s, hrun⟩ :
      ∃ env, Environment.ofSchemas aliasSchemas = .ok env ∧ env.schemas = aliasSchemas ∧
        ∃ p q e s, (compileNamed env "P" (env.schemas.value "P")).run p = (.ok (e, s), q) :=
    ⟨_, rfl, rfl, ⟨{}, ⟨.empty .unbounded, .empty .unbounded⟩, []⟩, _, _, _, rfl⟩
  have hnamed : Named env.schemas ["B", "P", "N"] := by
    rw [hschemas]
    exact ⟨by decide, by decide⟩
  have hfree : AliasFree env.schemas "P" := by
    rw [hschemas]
    exact aliasFree_aliasSchemas ⟨_, rfl, by decide⟩
  have halias : isAlias (env.schemas.value "P") = true := by
    rw [hschemas]
    rfl
  refine ⟨env, p, q, e, s, henv, hrun, ?_⟩
  exact (compileNamed_alias_iff hnamed (by decide) halias hfree hrun).mpr
    (transparent_aliasSchemas hschemas)

theorem compileNamed_alias_nullable :
    ∃ env p q e s, Environment.ofSchemas aliasSchemas = .ok env ∧
      isAlias (env.schemas.value "N") = true ∧ AliasFree env.schemas "N" ∧
      (compileNamed env "N" (env.schemas.value "N")).run p = (.ok (e, s), q) ∧
      e.modifierNames = ["nullable"] ∧ ¬ ∃ const, StandsFor env "N" const ∧ IsRefTo const e := by
  refine ⟨_, ⟨{}, ⟨.empty .unbounded, .empty .unbounded⟩, []⟩, _, _, _, rfl, rfl,
    aliasFree_aliasSchemas ⟨_, rfl, by decide⟩, rfl, by decide, ?_⟩
  rintro ⟨const, -, h⟩
  cases h

end SchemaForge.Compile
