import SchemaForge.Proofs.Compile.Shapes

/-!
# Keys beyond the declared ones

An object whose schema allows no other properties is made by `z.strictObject`, which lets no key pass
that is not declared, unless a `catchall` follows that lets all of them pass. Such a call is added
exactly when a required name is not declared (`policy_of_closed`); whether a key matches a pattern of
the schema makes no difference to it. So the policy for a key is the right one only if these two
agree.
-/

namespace SchemaForge

/-! ## Policies -/

namespace Expression

/-- No key passes that is not declared. -/
def RejectsUndeclared (e : Expression) : Prop :=
  e.callee = some "z.strictObject" ∧ e.hasModifier "catchall" = false

/-- Every key passes that is not declared, whatever its value. -/
def AdmitsUndeclared (e : Expression) : Prop :=
  Modifier.mk "catchall" [(zod "unknown" []).toNode] ∈ e.modifiers ∧
    ∀ m ∈ e.modifiers, m.name = "catchall" → m = .mk "catchall" [(zod "unknown" []).toNode]

variable {e x : Expression}

theorem RefinedTo.rejectsUndeclared (h : RefinedTo e x) (he : e.RejectsUndeclared) :
    x.RejectsUndeclared :=
  ⟨h.callee.trans he.1, (h.hasModifier (by decide)).trans he.2⟩

theorem RefinedTo.admitsUndeclared (h : RefinedTo e x) (he : e.AdmitsUndeclared) :
    x.AdmitsUndeclared := by
  have hmem : ∀ m : Modifier, m.name = "catchall" → (m ∈ x.modifiers ↔ m ∈ e.modifiers) :=
    fun m hm => h.mem_iff (by rw [hm]; decide)
  exact ⟨(hmem _ rfl).mpr he.1, fun m hm hname => he.2 m ((hmem m hname).mp hm) hname⟩

theorem not_rejects_of_admits (h : e.AdmitsUndeclared) : ¬ e.RejectsUndeclared := by
  rintro ⟨-, hno⟩
  have hyes : e.hasModifier "catchall" = true := List.any_eq_true.mpr ⟨_, h.1, rfl⟩
  rw [hno] at hyes
  cases hyes

/-- All other properties pass once a call lets them. -/
theorem admitsUndeclared_admitAll (h : e.hasModifier "catchall" = false) :
    (Compile.admitAll e).AdmitsUndeclared := by
  refine ⟨List.mem_append_right _ (List.mem_singleton.mpr rfl), fun m hm hname => ?_⟩
  obtain hm | hm := List.mem_append.mp hm
  · have hyes : e.hasModifier "catchall" = true := List.any_eq_true.mpr ⟨m, hm, beq_iff_eq.mpr hname⟩
    rw [h] at hyes
    cases hyes
  · exact List.mem_singleton.mp hm

end Expression

namespace Compile

open Expression

variable {env : Environment} {inner : Inner} {schema : Fields} {p q : Progress} {e x : Expression}

/-! ## Required names -/

/-- Every required name of a schema is declared. -/
def RequiresOnlyDeclared (schema : Fields) : Prop :=
  ∀ names, requiredNames schema = .ok names → ∀ n ∈ names, (ownProperties schema).hasName n = true

/-- **Other properties are let pass if a required name is not declared, and only then.** -/
theorem policy_undeclaredRequired (he : e.hasModifier "catchall" = false)
    (h : undeclaredRequired schema e = .ok x) :
    RequiresOnlyDeclared schema ∧ RefinedTo e x ∨
      ¬ RequiresOnlyDeclared schema ∧ RefinedTo (admitAll e) x := by
  obtain ⟨declared, hdeclared, h⟩ := Outcome.bind_eq_ok.mp h
  obtain ⟨required, hrequired, h⟩ := Outcome.bind_eq_ok.mp h
  obtain rfl := eq_ownProperties hdeclared
  have honly : RequiresOnlyDeclared schema ↔
      (required.filter fun n => !(ownProperties schema).hasName n).isEmpty = true := by
    rw [List.isEmpty_iff, List.filter_eq_nil_iff]
    constructor
    · exact fun hall n hn => by simpa using hall required hrequired n hn
    · intro hnone names hnames n hn
      rw [hrequired] at hnames
      cases hnames
      simpa using hnone n hn
  dsimp only at h
  split at h
  · rename_i hnone
    cases h
    exact Or.inl ⟨honly.mpr hnone, .refl e⟩
  · rename_i hsome
    obtain ⟨reads, -, h⟩ := Outcome.bind_eq_ok.mp h
    cases h
    refine Or.inr ⟨fun hall => hsome (honly.mp hall), ?_⟩
    rw [ensureAdmits, he]
    exact .call (by decide) _ _

/-! ## Closed objects -/

/-- **The policy of an object that allows no other properties.** It is closed by its constructor, and
opened by a required name that is not declared. -/
theorem policy_of_closed (hclosed : schema.value "additionalProperties" = .bool false)
    (h : (compileObject env inner schema).run p = (.ok e, q)) :
    RequiresOnlyDeclared schema ∧ e.RejectsUndeclared ∨
      ¬ RequiresOnlyDeclared schema ∧ e.AdmitsUndeclared := by
  obtain ⟨shape, r, e₁, e₂, e₃, e₄, rules, -, ⟨_, _, hadditional⟩, hundeclared, ⟨_, _, hpatterns⟩,
    hnames, hrules, rfl⟩ := stages_of_compileObject h
  obtain rfl : e₁ = zod "strictObject" [shape] := by
    rw [objectConstructor, hclosed] at hadditional
    unfold additional at hadditional
    rw [hclosed] at hadditional
    cases hadditional
    rfl
  -- before required names are looked at, nothing lets other properties pass; after it, nothing does so
  have hcounted : RefinedTo (zod "strictObject" [shape])
    (propertyCount schema (zod "strictObject" [shape])) := refinedTo_propertyCount
  have hstrict : (propertyCount schema (zod "strictObject" [shape])).RejectsUndeclared :=
    hcounted.rejectsUndeclared ⟨rfl, rfl⟩
  have hafter : RefinedTo e₂ ⟨e₄.base, e₄.modifiers ++ rules⟩ :=
    ((refinedTo_patternProperties _ _ _ hpatterns).trans (refinedTo_propertyNames hnames)).trans
      (hrules.refinedTo e₄)
  obtain ⟨honly, hrefined⟩ | ⟨hmissing, hrefined⟩ := policy_undeclaredRequired hstrict.2 hundeclared
  · exact Or.inl ⟨honly, (hrefined.trans hafter).rejectsUndeclared hstrict⟩
  · exact Or.inr ⟨hmissing, (hrefined.trans hafter).admitsUndeclared
      (admitsUndeclared_admitAll hstrict.2)⟩

/-- The patterns of a schema, as the names of what stands under them. -/
def patternNames (schema : Fields) : List Scalar :=
  match schema.value "patternProperties" with
  | .object patterns => Fields.names patterns
  | _ => []

/-- A key matches one of the patterns of a schema. -/
def MatchesPattern (passes : Scalar → String → Bool) (schema : Fields) (key : String) : Prop :=
  ∃ pattern ∈ patternNames schema, passes pattern key = true

/-- An expression lets no other properties pass, and a key is none of those declared. -/
def Rejects (e : Expression) (schema : Fields) (key : String) : Prop :=
  (ownProperties schema).has key = false ∧ e.RejectsUndeclared

/-- **When the policy is the right one.** An object that allows no other properties rejects a key that is
not declared exactly if every required name is declared. That is right for a key if it matches no
pattern in the one case, and matches one in the other. -/
theorem closed_policy_iff (passes : Scalar → String → Bool)
    (hclosed : schema.value "additionalProperties" = .bool false)
    (h : (compileObject env inner schema).run p = (.ok e, q)) {key : String}
    (hkey : (ownProperties schema).has key = false) :
    (Rejects e schema key ↔ RequiresOnlyDeclared schema) ∧
      (e.AdmitsUndeclared ↔ ¬ RequiresOnlyDeclared schema) ∧
      ((Rejects e schema key ↔ ¬ MatchesPattern passes schema key) ↔
        (RequiresOnlyDeclared schema ↔ ¬ MatchesPattern passes schema key)) := by
  obtain ⟨honly, hrejects⟩ | ⟨hmissing, hadmits⟩ := policy_of_closed hclosed h
  · have hiff : Rejects e schema key ↔ RequiresOnlyDeclared schema :=
      iff_of_true ⟨hkey, hrejects⟩ honly
    refine ⟨hiff, iff_of_false ?_ (not_not_intro honly), by rw [hiff]⟩
    exact fun hadmits => not_rejects_of_admits hadmits hrejects
  · have hiff : Rejects e schema key ↔ RequiresOnlyDeclared schema :=
      iff_of_false (fun hrejects => not_rejects_of_admits hadmits hrejects.2) hmissing
    exact ⟨hiff, iff_of_true hadmits hmissing, by rw [hiff]⟩

/-- A closed object that declares nothing. -/
def closedObject (required : List Value) (patterns : Fields) : Fields :=
  [(.text "type", .text "object"), (.text "properties", .object []),
   (.text "required", .list required), (.text "patternProperties", .object patterns),
   (.text "additionalProperties", .bool false)]

/-- Texts under the names that match a pattern. -/
def textsUnder (pattern : String) : Fields :=
  [(.text pattern, .object [(.text "type", .text "string")])]

/-- Matching for two patterns: what starts with an `x`, and anything. -/
def passesPattern (pattern : Scalar) (key : String) : Bool :=
  if pattern == .text "^x" then Text.startsWith ['x'] key.toList else pattern == .text ".*"

theorem closed_policy_iff_prefixed : ∃ env p e q, Environment.ofConfig {} [] = .ok env ∧
    (compileObject env (within env (compileReference env) 3) (closedObject [] (textsUnder "^x"))).run p =
      (.ok e, q) ∧
    Rejects e (closedObject [] (textsUnder "^x")) "b" ∧
    ¬ MatchesPattern passesPattern (closedObject [] (textsUnder "^x")) "b" := by
  obtain ⟨env, henv, hgives⟩ : ∃ env, Environment.ofConfig {} [] = .ok env ∧
      ((compileObject env (within env (compileReference env) 3)
        (closedObject [] (textsUnder "^x"))).run ⟨{}, env.caches, []⟩).1.toOption.isSome = true :=
    ⟨_, rfl, by decide +kernel⟩
  obtain ⟨e, hrun⟩ := Option.isSome_iff_exists.mp hgives
  rw [Outcome.toOption_eq_some] at hrun
  have honly : RequiresOnlyDeclared (closedObject [] (textsUnder "^x")) := by
    intro names hnames
    cases hnames
    nofun
  have hunmatched : ¬ MatchesPattern passesPattern (closedObject [] (textsUnder "^x")) "b" := by
    rintro ⟨pattern, hpattern, hpasses⟩
    rw [List.mem_singleton.mp hpattern] at hpasses
    exact absurd hpasses (by decide)
  have hpolicy := closed_policy_iff passesPattern rfl (Prod.ext hrun rfl)
    (show (ownProperties (closedObject [] (textsUnder "^x"))).has "b" = false from rfl)
  exact ⟨env, _, e, _, henv, Prod.ext hrun rfl,
    (hpolicy.2.2.mpr (iff_of_true honly hunmatched)).mpr hunmatched, hunmatched⟩

/-- **Either way the policy may be wrong**: a required name that is not declared lets a key pass that
matches no pattern, and without such a name a key is rejected that matches one. -/
theorem closed_policy_wrong : ∃ env, Environment.ofConfig {} [] = .ok env ∧
    (∃ p e q, (compileObject env (within env (compileReference env) 3)
        (closedObject [.text "c"] [])).run p = (.ok e, q) ∧
      ¬ MatchesPattern passesPattern (closedObject [.text "c"] []) "b" ∧ e.AdmitsUndeclared) ∧
    ∃ p e q, (compileObject env (within env (compileReference env) 3)
        (closedObject [] (textsUnder ".*"))).run p = (.ok e, q) ∧
      MatchesPattern passesPattern (closedObject [] (textsUnder ".*")) "b" ∧
      Rejects e (closedObject [] (textsUnder ".*")) "b" := by
  obtain ⟨env, henv, hopen, hshut⟩ : ∃ env, Environment.ofConfig {} [] = .ok env ∧
      ((compileObject env (within env (compileReference env) 3)
        (closedObject [.text "c"] [])).run ⟨{}, env.caches, []⟩).1.toOption.isSome = true ∧
      ((compileObject env (within env (compileReference env) 3)
        (closedObject [] (textsUnder ".*"))).run ⟨{}, env.caches, []⟩).1.toOption.isSome = true :=
    ⟨_, rfl, by decide +kernel, by decide +kernel⟩
  obtain ⟨e, he⟩ := Option.isSome_iff_exists.mp hopen
  obtain ⟨e', he'⟩ := Option.isSome_iff_exists.mp hshut
  rw [Outcome.toOption_eq_some] at he he'
  refine ⟨env, henv, ⟨_, e, _, Prod.ext he rfl, ?_, ?_⟩, _, e', _, Prod.ext he' rfl, ?_, ?_⟩
  · rintro ⟨pattern, hpattern, -⟩
    cases hpattern
  · obtain ⟨honly, -⟩ | ⟨-, hadmits⟩ := policy_of_closed rfl (Prod.ext he rfl)
    · exact absurd (honly [.text "c"] rfl _ List.mem_cons_self) (by decide)
    · exact hadmits
  · exact ⟨.text ".*", List.mem_singleton.mpr rfl, by decide⟩
  · obtain ⟨-, hrejects⟩ | ⟨hmissing, -⟩ := policy_of_closed rfl (Prod.ext he' rfl)
    · exact ⟨rfl, hrejects⟩
    · refine absurd (fun names hnames => ?_) hmissing
      cases hnames
      nofun

end Compile

end SchemaForge
