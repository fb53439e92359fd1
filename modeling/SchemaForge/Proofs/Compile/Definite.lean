import SchemaForge.Proofs.Compile.FirstDefinition
import SchemaForge.Proofs.Compile.Trees

/-!
# Only properties are optional

What a schema compiles to is never optional by itself: an expression becomes optional only as the
entry of a property in a shape. In a session without a name a schema may be looked up instead of
compiled, so there the cache has to hold nothing but definite expressions (`FindsDefinite`). A run
keeps it so, and whatever a generator has filed is definite.
-/

namespace SchemaForge.Compile

open Schema Expression

variable {env : Environment} {schema : Fields} {e x : Expression} {inner : Inner} {p q : Progress}

theorem Ends.ite {α : Type} {Q : α → Prop} {c : Prop} [Decidable c] {a b : Compile α}
    (ha : Ends Q a) (hb : Ends Q b) : Ends Q (if c then a else b) := by
  split
  · exact ha
  · exact hb

/-! ## Strings, numbers and arrays -/

/-- Constraints on strings are calls that leave an expression as definite as it was. -/
theorem dresses_stringConstraints : Ends (Dresses e) (stringConstraints schema e) := by
  have hbound : ∀ {e : Expression} {name : String} {v : Value},
      name ∉ ["optional", "extend", "omit", "and"] →
      Dresses e (if v.isNull then e else e.andThen name [.literal v]) :=
    fun hname => .ite (.refl _) (.call hname _ _)
  unfold stringConstraints
  dsimp only
  split
  · refine Ends.bind fun source => .pure ?_
    exact ((hbound (by decide)).trans (hbound (by decide))).trans (.call (by decide) _ _)
  · exact .pure ((hbound (by decide)).trans (hbound (by decide)))

theorem definite_refine (rule : Formats.Rule) (h : e.Definite) : (rule.refine e).Definite := by
  cases rule with
  | refinement test message => exact h.andThen (by decide) _
  | constructor name => exact h
  | sameAs name => exact h

theorem definite_validator (rule : Formats.Rule) : rule.validator.Definite := by
  cases rule with
  | constructor name => exact .base _
  | refinement test message => exact definite_refine _ (.base _)
  | sameAs name => exact definite_refine _ (.base _)

/-- What a format starts from is definite if the expression for moments is. -/
theorem definite_formatBase (hd : env.context.dateTime.Definite)
    (h : formatBase env schema = .ok e) : e.Definite := by
  unfold formatBase at h
  dsimp only at h
  split at h
  · split at h
    · cases h
      exact hd
    · obtain ⟨rule, -, h⟩ := Outcome.bind_eq_ok.mp h
      split at h
      · cases h
        exact definite_validator _
      · cases h
        exact .base _
  · cases h
    exact .base _

theorem definite_encodingBase {encoding : Value} (h : encodingBase encoding = .ok e) :
    e.Definite := by
  obtain ⟨rule, -, h⟩ := Outcome.bind_eq_ok.mp h
  split at h
  · cases h
    exact definite_validator _
  · cases h
    exact Definite.andThen (.base _) (by decide) _

/-- **A string is definite.** -/
theorem definite_compileString (hd : env.context.dateTime.Definite) :
    Ends Definite (compileString env schema) := by
  have hdescribed : ∀ {e : Expression}, e.Definite →
      Ends Definite (pure (e.describe (schema.value "description") env.describes)) :=
    fun he => .pure ((Dresses.describe _ _ _).definite he)
  intro p e q h
  obtain ⟨base, hbase, h⟩ := run_liftBind_eq_ok h
  obtain ⟨e₁, p₁, h₁, h⟩ := run_bind_eq_ok h
  have he₁ := (dresses_stringConstraints _ _ _ h₁).definite (definite_formatBase hd hbase)
  dsimp only at h
  split at h
  · obtain ⟨encoded, hencoded, h⟩ := run_liftBind_eq_ok h
    obtain ⟨e₂, p₂, h₂, h⟩ := run_bind_eq_ok h
    exact hdescribed
      ((dresses_stringConstraints _ _ _ h₂).definite (definite_encodingBase hencoded)) _ _ _ h
  · split at h
    · obtain ⟨rule, -, h⟩ := run_liftBind_eq_ok h
      split at h
      · exact hdescribed (definite_refine _ he₁) _ _ _ h
      · exact hdescribed he₁ _ _ _ h
    · exact hdescribed he₁ _ _ _ h

/-- **So is a number**, with any of its bounds. -/
theorem definite_compileNumber {isInteger : Bool} :
    (compileNumber env schema isInteger).Definite := by
  have hbound : ∀ {e : Expression} {name : String} {v : Value}, name ≠ "optional" → e.Definite →
      (bound name v e).Definite := by
    intro e name v hname he
    unfold bound
    split
    · exact he.andThen hname _
    · exact he
  have hpicked : ∀ {c : Prop} [Decidable c] {name name' : String}, name ≠ "optional" →
      name' ≠ "optional" → (if c then name else name') ≠ "optional" := by
    intro c _ name name' h h'
    split
    · exact h
    · exact h'
  have hint : (if isInteger then (zod "number" []).andThen "int" [] else zod "number" []).Definite := by
    cases isInteger <;> rfl
  unfold compileNumber
  refine (Dresses.describe _ _ _).definite ?_
  exact hbound (by decide) (hbound (by decide) (hbound (hpicked (by decide) (by decide))
    (hbound (by decide) (hbound (hpicked (by decide) (by decide)) hint))))

theorem definite_compileEnum (values : List Value) : (compileEnum values).Definite := by
  unfold compileEnum
  split
  · exact .base _
  · split <;> exact .base _

/-- **So is an array**, whatever is inside: its items are arguments and no calls of its own. -/
theorem definite_compileArray : Ends Definite (compileArray env inner schema) := by
  have hfinish : ∀ e : Expression, e.Definite → Ends Definite (do
      let e ← compileContains inner schema
        (if schema.value "uniqueItems" == .bool true then
          e.andThen "refine" [codeText "(items) => new Set(items).size === items.length",
            messageOptions "Array items must be unique"]
        else e)
      return e.describe (schema.value "description") env.describes) := by
    intro e he
    have hunique : Dresses e (if schema.value "uniqueItems" == .bool true then
        e.andThen "refine" [codeText "(items) => new Set(items).size === items.length",
          messageOptions "Array items must be unique"]
      else e) := .ite (.call (by decide) e _) (.refl e)
    refine Ends.andThen (R := Definite) ?_ fun e he => .pure ((Dresses.describe _ _ _).definite he)
    unfold compileContains
    dsimp only
    split
    · exact Ends.bind fun item => .pure ((hunique.definite he).andThen (by decide) _)
    · exact .pure (hunique.definite he)
  unfold compileArray
  dsimp only
  split
  · refine Ends.andThen (R := Definite) ?_ hfinish
    unfold compileTuple
    refine Ends.bind fun places => Ends.bind fun compiled => ?_
    refine Ends.ite (Ends.bind fun rest => ?_) (Ends.ite ?_ ?_)
    all_goals exact Ends.pure (by rfl)
  · refine Ends.andThen (R := Definite) ?_ hfinish
    have hbound : ∀ {e : Expression} {v : Value} {name : String}, name ≠ "optional" → e.Definite →
        Definite (if v.isNull then e else e.andThen name [.literal v]) := by
      intro e v name hname he
      split
      · exact he
      · exact he.andThen hname _
    unfold compileList
    dsimp only
    split
    · refine Ends.bind fun item => .pure ?_
      exact hbound (by decide) (hbound (by decide) (.base _))
    · exact .pure (hbound (by decide) (hbound (by decide) (.base _)))

/-! ## Compositions -/

variable {levels : Nat}

/-- Only definite expressions may be found: the session has a name, so that none is looked up, or the
cache holds no others. -/
def FindsDefinite (p : Progress) : Prop :=
  p.session.name.isSome = true ∨ p.caches.schemas.All fun _ e => e.Definite

theorem FindsDefinite.of_kept (h : FindsDefinite p) (hname : q.session.name = p.session.name)
    (hschemas : q.caches.schemas = p.caches.schemas) : FindsDefinite q := by
  rw [FindsDefinite, hname, hschemas]
  exact h

/-- Where only definite expressions may be found, that stays so. -/
def findingDefinite : Course where
  goes p q := FindsDefinite p → FindsDefinite q
  records _ := True
  aside h hp := hp.of_kept h.session.name h.schemas
  trans h h' hp := h' (h hp)
  nested h hp := h hp

/-- Where only definite expressions may be found, a computation gives only such. -/
def GivesDefinite (a : Compile Expression) : Prop :=
  ∀ p e q, FindsDefinite p → a.run p = (.ok e, q) → e.Definite

/-- The schemas at some levels compile to definite expressions, and file no others. -/
structure DefiniteWithin (env : Environment) (levels : Nat) : Prop where
  gives : ∀ v branch, GivesDefinite (within env (compileReference env) levels v branch)
  keeps : ∀ v branch, Runs findingDefinite (fun _ => True)
    (within env (compileReference env) levels v branch)

/-- What is left of a branch extends the result or is met with it; neither is a call of `optional`.
-/
theorem definite_addReduced {m : Merge} {omitted : List Scalar} {left : Value}
    (h : m.result.Definite) :
    Ends (fun m' : Merge => m'.result.Definite) (addReduced env inner m omitted left) := by
  have hintersected : Ends (fun m' : Merge => m'.result.Definite) (do
      let e ← intersection inner omitted left
      return { result := m.result.andThen "and" [e.toNode], extensible := false }) :=
    Ends.bind fun e => .pure (h.andThen (by decide) _)
  unfold addReduced
  split
  · refine Ends.ite (Ends.bind fun argument => ?_) hintersected
    cases argument with
    | some shape => exact .pure (h.andThen (by decide) _)
    | none => exact hintersected
  · exact hintersected

/-- All branches, by induction on them. -/
theorem definite_mergeBranches : ∀ {branches : List (Value × List Scalar)} {m : Merge},
    m.result.Definite →
    Ends (fun m' : Merge => m'.result.Definite) (mergeBranches env inner m branches)
  | [], _, h => .pure h
  | (branch, omitted) :: rest, m, h => by
    refine Ends.andThen (R := fun m' : Merge => m'.result.Definite) ?_
      fun m' hm' => definite_mergeBranches hm'
    rw [mergeBranch_eq]
    refine Ends.bind fun left => ?_
    cases left with
    | none => exact .pure h
    | some left => exact definite_addReduced h

/-- A composition is as definite as its first branch, the only one that others are merged into. -/
theorem definite_compileAllOf (h : DefiniteWithin env levels) {branches : List Value}
    {nullable : Bool} : GivesDefinite
      (compileAllOf env (within env (compileReference env) levels) branches nullable) := by
  intro p e q hp hrun
  match branches with
  | [] =>
    obtain ⟨scan, -, hrun⟩ := run_liftBind_eq_ok hrun
    obtain ⟨_, p₁, -, hrun⟩ := run_bind_eq_ok hrun
    cases hrun
  | [branch] =>
    obtain ⟨e₁, p₁, h₁, hrun⟩ := run_bind_eq_ok hrun
    cases hrun
    exact (Dresses.nullableIf _ _).definite (h.gives _ _ p e₁ _ hp h₁)
  | first :: second :: rest =>
    rw [compileAllOf_cons] at hrun
    obtain ⟨scan, -, hrun⟩ := run_liftBind_eq_ok hrun
    obtain ⟨p₁, hp₁, hname, hcaches, -⟩ := run_addConflicts scan.conflicts p
    rw [run_bind_ok hp₁] at hrun
    obtain ⟨head, p₂, hhead, hrun⟩ := run_bind_eq_ok hrun
    have hdefinite : head.Definite :=
      h.gives first true p₁ head p₂ (hp.of_kept hname (by rw [hcaches])) hhead
    have hmerged : ∀ extensible : Bool, Ends Definite (do
        let merged ← mergeBranches env (within env (compileReference env) levels)
          ⟨head, extensible⟩ ((second :: rest).zip scan.overridden.tail)
        return (withConflicts scan.conflicts merged.result).nullableIf nullable) := by
      intro extensible
      refine Ends.andThen (definite_mergeBranches (m := ⟨head, extensible⟩) hdefinite)
        fun m hm => .pure ?_
      exact ((dresses_withConflicts _ _).trans (.nullableIf _ _)).definite hm
    by_cases hshape : head.exposesShape = true
    · rw [if_pos hshape] at hrun
      exact Ends.bind hmerged _ _ _ hrun
    · rw [if_neg hshape] at hrun
      exact hmerged false _ _ _ hrun

/-- A union calls its own constructor on the branches, or is the single branch that there is. -/
theorem definite_compileUnion (h : DefiniteWithin env levels) {kind : UnionKind}
    {branches : List Value} {discriminator mapping : Value} {nullable admitting : Bool} :
    GivesDefinite (compileUnion env (within env (compileReference env) levels) kind branches
      discriminator mapping nullable admitting) := by
  have hnullable : ∀ {e : Expression}, e.Definite → (e.nullableIf nullable).Definite :=
    fun he => (Dresses.nullableIf _ _).definite he
  intro p e q hp hrun
  unfold compileUnion at hrun
  split at hrun
  · exact Ends.bind (fun _ => Ends.bind fun _ => .pure (hnullable (.base _))) _ _ _ hrun
  · obtain ⟨e₁, p₁, h₁, hrun⟩ := run_bind_eq_ok hrun
    cases hrun
    exact hnullable (h.gives _ _ p e₁ _ hp h₁)
  · refine Ends.bind (fun selected => Ends.bind fun compiled => ?_) _ _ _ hrun
    obtain ⟨ordered, selector⟩ := selected
    refine .pure (hnullable ?_)
    cases selector with
    | none => exact .base _
    | property name => exact .base _
    | unusable name => exact Definite.andThen (e := unionOf none _) (.base _) (by decide) _

/-! ## Schemas -/

/-- A reference is a name, in one or the other writing. -/
theorem definite_compileReference {ref name : String} {top : Bool} :
    Ends Definite (compileReference env ref name top) := by
  have hconst : ∀ {resolved : String}, Ends Definite (do
      return plainRef (← env.constName resolved) : Compile Expression) :=
    fun {_} => Ends.bind fun const => .pure (.base _)
  unfold compileReference
  refine Ends.bind fun s => Ends.ite (.fail _) (Ends.bind fun resolved => ?_)
  split
  · exact hconst
  · have hnamed : ∀ current : String, Ends Definite (do
        let const ← env.constName resolved
        if mustDefer env current name resolved then
          if env.context.separateTypes.isSet then
            return deferredRef const ("z.ZodType<" ++ (← env.typeName resolved) ++ ">")
          else return deferredRef const "z.ZodTypeAny"
        else return plainRef const : Compile Expression) := fun current =>
      Ends.bind fun const => Ends.ite
        (Ends.ite (Ends.bind fun type => .pure (.base _)) (.pure (.base _))) (.pure (.base _))
    exact Ends.ite (Ends.bind fun _ => hnamed _) (hnamed _)

/-- An object starts from a constructor, and what is said about it are refinements and a catchall.
-/
theorem definite_compileObjectForm {constrained : Bool} : Ends Definite
    (compileObjectForm env (within env (compileReference env) levels) schema constrained) := by
  have hdescribed : ∀ {e : Expression}, e.Definite →
      (e.describe (schema.value "description") env.describes).Definite :=
    fun he => (Dresses.describe _ _ _).definite he
  have hempty : ∀ o : EmptyObject, (compileEmptyObject o).Definite := by
    intro o
    cases o <;> exact .base _
  intro p e q h
  unfold compileObjectForm at h
  split at h
  · obtain ⟨e₁, p₁, hobject, h⟩ := run_bind_eq_ok h
    obtain ⟨e₂, p₂, hchecked, h⟩ := run_bind_eq_ok h
    cases h
    exact hdescribed ((dresses_checkUnevaluated _ _ _ hchecked).definite
      (run_compileObject .refl hobject).definite)
  · split at h
    · exact Ends.bind (fun values => .pure (hdescribed (.base _))) _ _ _ h
    · cases h
      exact hdescribed (hempty _)
    · cases h
      exact hdescribed (hempty _)

/-- **Whatever the form of a schema, it compiles to a definite expression.** A negation is the one
form besides compositions that is built on a schema inside. -/
theorem definite_compileForm (hd : env.context.dateTime.Definite) (h : DefiniteWithin env levels)
    {form : Form} (hform : FormOf schema form) {top : Bool} :
    GivesDefinite (compileForm env (compileReference env)
      (within env (compileReference env) levels) schema top form) := by
  have hplain : ∀ name, ((zod name []).describe (schema.value "description") env.describes).Definite :=
    fun name => (Dresses.describe _ _ _).definite (.base _)
  intro p e q hp hrun
  cases hform with
  | severalTypes several => exact Ends.bind (fun members => .pure (.base _)) _ _ _ hrun
  | reference held => exact definite_compileReference _ _ _ hrun
  | constant held =>
    cases hrun
    exact .base _
  | enum held walked =>
    cases hrun
    exact definite_compileEnum _
  | @negation value held =>
    obtain ⟨excluded, p₁, hexcluded, hrun⟩ := run_bind_eq_ok hrun
    have hp₁ : FindsDefinite p₁ := by
      have hkept := (h.keeps value true p).1 hp
      rwa [hexcluded] at hkept
    split at hrun
    · obtain ⟨base, p₂, hbase, hrun⟩ := run_bind_eq_ok hrun
      cases hrun
      exact (h.gives _ _ p₁ base _ hp₁ hbase).andThen (by decide) _
    · cases hrun
      exact Definite.andThen (.base _) (by decide) _
  | allOf held walked =>
    cases hrun
    exact hplain _
  | union held walked told =>
    cases hrun
    exact hplain _
  | ofType =>
    rcases formOfType_cases schema with hf | ⟨isInteger, hf⟩ | hf | hf | ⟨constrained, hf⟩ | hf
    all_goals rw [hf] at hrun
    · exact definite_compileString hd _ _ _ hrun
    · cases hrun
      exact definite_compileNumber
    · cases hrun
      exact hplain _
    · exact definite_compileArray _ _ _ hrun
    · exact definite_compileObjectForm _ _ _ hrun
    · cases hrun
      exact hplain _

theorem definite_compileClassified (hd : env.context.dateTime.Definite)
    (h : DefiniteWithin env levels) {form : Form} (hform : FormOf schema form) {top branch : Bool} :
    GivesDefinite (compileClassified env (compileReference env)
      (within env (compileReference env) levels) schema top branch form) := by
  intro p e q hp hrun
  unfold compileClassified at hrun
  split at hrun
  · obtain ⟨e₁, p₁, h₁, hrun⟩ := run_bind_eq_ok hrun
    exact (dresses_checkUnevaluated _ _ _ hrun).definite (definite_compileAllOf h p e₁ p₁ hp h₁)
  · obtain ⟨e₁, p₁, h₁, hrun⟩ := run_bind_eq_ok hrun
    exact (dresses_checkUnevaluated _ _ _ hrun).definite (definite_compileUnion h p e₁ p₁ hp h₁)
  · obtain ⟨e₁, p₁, h₁, hrun⟩ := run_bind_eq_ok hrun
    cases hrun
    exact (Dresses.nullableIf _ _).definite (definite_compileForm hd h hform p e₁ _ hp h₁)

theorem definite_compileFields (hd : env.context.dateTime.Definite) (h : DefiniteWithin env levels)
    {top branch : Bool} : GivesDefinite (compileFields env (compileReference env)
      (within env (compileReference env) levels) schema top branch) := by
  intro p e q hp hrun
  obtain ⟨fields, -, hrun⟩ := run_liftBind_eq_ok hrun
  obtain ⟨form, hform, hrun⟩ := run_liftBind_eq_ok hrun
  exact definite_compileClassified hd h (formOf_of_classify hform) p e q hp hrun

/-- Compiling the fields of a schema files nothing but what the schemas inside file. -/
theorem findingDefinite_compileFields (h : DefiniteWithin env levels) {top branch : Bool} :
    Runs findingDefinite (fun _ => True) (compileFields env (compileReference env)
      (within env (compileReference env) levels) schema top branch) :=
  compileFields_runs permits_all (fun _ _ _ => compileReference_runs permits_all)
    (fun _ _ v _ branch => h.keeps v branch)
    (fun _ _ _ _ => ⟨fun _ _ => trivial, fun _ => trivial⟩) top branch

/-- What is found in the cache is definite, and so is what is filed there. -/
theorem findingDefinite_compileCached {top branch : Bool}
    (hgives : GivesDefinite (compileFields env (compileReference env) inner schema top branch))
    (hkeeps : Runs findingDefinite (fun _ => True)
      (compileFields env (compileReference env) inner schema top branch)) :
    Runs findingDefinite (fun _ => True)
      (compileCached env (compileReference env) inner schema top branch) := by
  refine fun p => ⟨fun hp => ?_, fun _ _ => trivial, fun _ _ => trivial⟩
  have hfields := (hkeeps p).1 hp
  cases hkey : cacheKey env schema top branch with
  | error f =>
    rw [run_compileCached_error hkey]
    exact hp
  | ok key =>
    cases hskip : p.session.name.isSome || namesUncached key with
    | true =>
      rw [run_compileCached_skip hkey hskip]
      exact hfields
    | false =>
      rw [run_compileCached_look hkey hskip]
      have hnone : p.session.name.isSome = false := (Bool.or_eq_false_iff.mp hskip).1
      have hall : p.caches.schemas.All fun _ e => e.Definite :=
        hp.resolve_left (by rw [hnone]; decide)
      rcases hfind : p.caches.schemas.find key with ⟨found, schemas⟩
      cases found with
      | some e =>
        rw [run_cached_hit hfind]
        exact Or.inr (hall.find hfind).1
      | none =>
        rcases hrun : (compileFields env (compileReference env) inner schema top branch).run p with
          ⟨result, r⟩
        rw [hrun] at hfields
        cases result with
        | error f =>
          rw [run_cached_error hfind hrun]
          exact hfields
        | ok e =>
          rw [run_cached_ok hfind hrun]
          exact hfields.imp_right fun hr => hr.set (hgives p e r hp hrun)

/-- **By induction on the levels left: what any schema compiles to is definite**, and nothing else is
filed. -/
theorem definite_within (hd : env.context.dateTime.Definite) : ∀ levels, DefiniteWithin env levels
  | 0 => by
    refine ⟨fun v branch p e q _ h => ?_, fun v branch => ?_⟩
    · unfold within compileWithin at h
      split at h
      · cases h
        exact .base _
      · exact Ends.bind (fun _ => .fail _) _ _ _ h
      · rename_i hlevels
        cases hlevels
      · exact Ends.bind (fun _ => .fail _) _ _ _ h
    · by_cases hobject : ∃ schema, v = .object schema
      · obtain ⟨schema, rfl⟩ := hobject
        exact Keeps.session.bind fun s _ => .fail trivial
      · exact compileWithin_runs_of_ne permits_all (not_exists.mp hobject) 0 false branch
  | levels + 1 => by
    have hbelow := definite_within hd levels
    refine ⟨fun v branch p e q hp h => ?_, fun v branch => ?_⟩
    · unfold within compileWithin at h
      split at h
      · cases h
        exact .base _
      · rename_i hlevels
        cases hlevels
      · rename_i levels' schema hlevels
        cases hlevels
        obtain ⟨r, h, -⟩ := run_nested_eq_ok h
        rcases run_compileCached_cases h with ⟨r', h⟩ | ⟨hname, key, -, hfound⟩
        · exact definite_compileFields hd hbelow p.deeper e r' hp h
        · have hall : p.caches.schemas.All fun _ e => e.Definite :=
            hp.resolve_left (by rw [show p.session.name = none from hname]; decide)
          exact (hall.find (Prod.mk.eta (p := p.caches.schemas.find key)).symm).2 e hfound
      · exact Ends.bind (fun _ => .fail _) _ _ _ h
    · by_cases hobject : ∃ schema, v = .object schema
      · obtain ⟨schema, rfl⟩ := hobject
        exact Keeps.nested (findingDefinite_compileCached (definite_compileFields hd hbelow)
          (findingDefinite_compileFields hbelow))
      · exact compileWithin_runs_of_ne permits_all (not_exists.mp hobject) _ false branch

/-! ## Earlier runs -/

/-- The course of a run files nothing but definite expressions. -/
theorem Onward.findsDefinite (hd : env.context.dateTime.Definite) (h : Onward env p q)
    (hp : FindsDefinite p) : FindsDefinite q := by
  induction h with
  | refl => exact hp
  | aside _ follows caches ih => exact ih.of_kept follows.name (by rw [caches])
  | compiled _ levels v branch ih => exact ((definite_within hd levels).keeps v branch _).1 ih

/-- What a schema compiles to in the course of a run is definite. -/
theorem CompiledFrom.definite {v : Value} (h : CompiledFrom env p v e)
    (hd : env.context.dateTime.Definite) (hp : FindsDefinite p) : e.Definite := by
  obtain ⟨levels, q, r, honward, hrun⟩ := h
  exact (definite_within hd levels).gives v false q e r (honward.findsDefinite hd hp) hrun

/-- **What a generator has filed is definite**: by induction on how it was filed. -/
theorem Filed.definite {key : String} (h : Filed env key e) (hd : env.context.dateTime.Definite) :
    e.Definite := by
  induction h with
  | compiled varies _ _ _ run ih =>
    obtain ⟨mode, useDescribe, includeDescriptions, rfl⟩ := varies
    have hview : (env.withOptions mode useDescribe includeDescriptions).context.dateTime.Definite := hd
    exact definite_compileFields hview (definite_within hview _) _ _ _ (Or.inr ih) run

/-- So a cache that a generator filled holds nothing else. -/
theorem FindsDefinite.of_filed (hd : env.context.dateTime.Definite)
    (h : p.session.name.isSome = true ∨ p.caches.schemas.All (Filed env)) : FindsDefinite p :=
  h.imp_right fun hfiled entry hentry => (hfiled entry hentry).definite hd

/-- What was compiled now or earlier is definite. -/
theorem EverCompiled.definite {v : Value} (h : EverCompiled env p v e)
    (hd : env.context.dateTime.Definite) (hp : FindsDefinite p) : e.Definite := by
  rcases h with hnow | ⟨view, earlier, hoptions, hearlier, hthen⟩
  · exact hnow.definite hd hp
  · have hview : view.context.dateTime.Definite := by
      rw [← hoptions.reads.dateTime]
      exact hd
    exact hthen.definite hview (.of_filed hd (Or.inr hearlier))

end SchemaForge.Compile
