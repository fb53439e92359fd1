import SchemaForge.Proofs.Compile.Ledger

/-!
# Keeping the books of strings, arrays and objects

The parts of the compiler for strings, numbers, arrays and objects keep the books of every ledger, if
the schemas inside do: what is compiled goes into the tree, and nothing else does.
-/

namespace SchemaForge.Compile

open Schema Ledger Expression

variable {L : Ledger} {env : Environment} {schema : Fields}

/-! ## Schemas inside -/

/-- A way to compile schemas inside another keeps the books on values with a property, and gives the
same whenever it is called. -/
structure InnerBooks (L : Ledger) (D : Value → Prop) (inner : Inner) : Prop where
  enters : ∀ {v}, D v → ∀ branch, L.Enters (inner v branch)
  twice : ∀ v branch, L.both.Alike Eq (inner v branch) (inner v branch)

/-- Shapes may declare the properties in a relation, as far as they are visible. -/
def Allows (L : Ledger) (env : Environment) (P : Scalar → Value → Prop) : Prop :=
  ∀ name v, P name v → env.context.visibility.shows v = true → L.allows name

/-- A property that a schema declares itself. -/
def DeclaresOwn (schema : Fields) (name : Scalar) (v : Value) : Prop :=
  ∃ properties, (schema.value "properties").fieldsIfSet = .ok properties ∧ (name, v) ∈ properties

/-- Where nothing is entered, an expression without marks is all that there is to enter. -/
theorem Ledger.Still.enters {a : Compile Expression} (h : L.Still Blank a) : L.Enters a := by
  intro marks p hp
  have hends := h marks p hp
  generalize a.run p = r at hends ⊢
  cases hends with
  | ok hv hq => exact .ok hv.plain (by rwa [hv.marks])
  | error hf => exact .error hf

/-- Compiling one schema after another enters the marks of all of them. -/
theorem enters_mapM {α : Type} {f : α → Compile Expression} {l : List α}
    (h : ∀ x ∈ l, L.Enters (f x)) :
    L.Books ∅ (fun es => ∀ e ∈ es, e.PlainNull) Expression.marksAll (l.mapM f) :=
  Books.mapM h

/-! ## Strings and numbers -/

section Primitives

/-- A rule of a format adds code, and code without nodes has no marks. -/
theorem blank_refine {e : Expression} (rule : Formats.Rule) (he : e.Blank) : (rule.refine e).Blank := by
  cases rule with
  | refinement test message => exact he.andThen (by decide) (by simp)
  | constructor name => exact he
  | sameAs name => exact he

theorem blank_validator (rule : Formats.Rule) : rule.validator.Blank := by
  cases rule with
  | constructor name => exact blank_zod Node.marksAll_nil
  | refinement test message => exact blank_refine (.refinement test message) (blank_zod (by simp))
  | sameAs name => exact blank_refine (.sameAs name) (blank_zod (by simp))

/-- **What a format starts from shows nothing**, given that the expression for moments does not. -/
theorem blank_formatBase (hd : env.context.dateTime.Blank) {e : Expression}
    (h : formatBase env schema = .ok e) : e.Blank := by
  unfold formatBase at h
  dsimp only at h
  split at h
  · split at h
    · cases h
      exact hd
    · obtain ⟨rule, -, h⟩ := Outcome.bind_eq_ok.mp h
      split at h
      · cases h
        exact blank_validator _
      · cases h
        exact blank_zod (by simp)
  · cases h
    exact blank_zod (by simp)

/-- Encoded contents start from a validator of their own. -/
theorem blank_encodingBase {encoding : Value} {e : Expression}
    (h : encodingBase encoding = .ok e) : e.Blank := by
  obtain ⟨rule, -, h⟩ := Outcome.bind_eq_ok.mp h
  split at h
  · cases h
    exact blank_validator _
  · cases h
    exact (blank_zod (by simp)).andThen (by decide) (by simp)

/-- A constraint that is added under a condition. -/
theorem blank_bound {c : Prop} [Decidable c] {e : Expression} {name : String} {v : Value}
    (he : e.Blank) (hname : name ≠ "nullable") :
    (if c then e else e.andThen name [.literal v]).Blank :=
  he.ite (he.andThen hname (by simp))

/-- Constraints on strings consult the cache of patterns only, which is not in the books. -/
theorem stringConstraints_still {e : Expression} (he : e.Blank) :
    L.Still Blank (stringConstraints schema e) := by
  refine Books.ite (fun _ => ?_) fun _ => ?_
  · refine (Books.escapedPattern _).bind fun source _ => .pure ?_ rfl
    exact (blank_bound (blank_bound he (by decide)) (by decide)).andThen (by decide) (by simp)
  · exact .pure (blank_bound (blank_bound he (by decide)) (by decide)) rfl

/-- **A string enters nothing**: it refers to no constant and declares no property. -/
theorem compileString_still (hd : env.context.dateTime.Blank) :
    L.Still Blank (compileString env schema) := by
  have hdescribed : ∀ e : Expression, e.Blank →
      L.Still Blank (pure (e.describe (schema.value "description") env.describes)) :=
    fun e he => .pure (he.describe _ _) rfl
  refine Books.liftBind fun base hbase => ?_
  refine (stringConstraints_still (blank_formatBase hd hbase)).bind fun e he => ?_
  refine Books.ite (fun _ => ?_) fun _ => Books.ite (fun _ => ?_) fun _ => ?_
  · refine Books.liftBind fun encoded hencoded => ?_
    exact (stringConstraints_still (blank_encodingBase hencoded)).bind hdescribed
  · refine Books.liftBind fun rule _ => ?_
    cases rule with
    | some rule => exact hdescribed _ (blank_refine rule he)
    | none => exact hdescribed _ he
  · exact hdescribed _ he

/-- Neither does a number. -/
theorem blank_compileNumber {isInteger : Bool} : (compileNumber env schema isInteger).Blank := by
  have hbound : ∀ {name : String} {v : Value} {e : Expression}, name ≠ "nullable" → e.Blank →
      (bound name v e).Blank := by
    intro name v e hname he
    exact (he.andThen hname (by simp)).ite he
  have hpicked : ∀ {c : Prop} [Decidable c] {name name' : String}, name ≠ "nullable" →
      name' ≠ "nullable" → (if c then name else name') ≠ "nullable" := by
    intro c _ name name' h h'
    split
    · exact h
    · exact h'
  unfold compileNumber
  refine Blank.describe ?_ _ _
  refine hbound (by decide) (hbound (by decide) (hbound (hpicked (by decide) (by decide))
    (hbound (by decide) (hbound (hpicked (by decide) (by decide)) ?_))))
  have hnumber : (zod "number" []).Blank := blank_zod (by simp)
  exact (hnumber.andThen (by decide) (by simp)).ite hnumber

/-- The values of an enum are literals. -/
theorem blank_compileEnum {values : List Value} : (compileEnum values).Blank := by
  have hnone : ∀ {α : Type} {f : α → Node} {xs : List α}, (∀ x, (f x).marks = ∅) →
      Node.marksAll (xs.map f) = ∅ := by
    intro α f xs h
    simp [Node.marksAll, h]
  unfold compileEnum
  split
  · exact blank_zod (by simp)
  · split
    · exact blank_zod (by simp [hnone])
    · exact blank_zod (by simp [hnone])

end Primitives

/-! ## Arrays -/

section Arrays

variable {inner : Inner} (h : InnerBooks L (PartOf schema) inner)
include h

/-- A tuple enters its places and what may follow them. -/
theorem compileTuple_enters : L.Enters (compileTuple inner schema) := by
  refine Books.liftBind fun places hplaces => ?_
  refine (enters_mapM fun v hv => h.enters (.place hplaces hv) false).bind fun es hes => ?_
  refine Books.ite (fun hrest => ?_) fun _ => Books.ite (fun _ => ?_) fun _ => ?_
  · have hpart : PartOf schema (if (schema.value "items").isObject then schema.value "items"
        else schema.value "unevaluatedItems") := by
      by_cases hitems : (schema.value "items").isObject = true
      · rw [if_pos hitems] at hrest ⊢
        exact .keyword (by decide) hrest
      · rw [if_neg hitems] at hrest ⊢
        exact .keyword (by decide) hrest
    exact (h.enters hpart false).andThen fun rest hrest => .pure (by simp) (by simp)
  · exact .pure (by simp) (by simp)
  · exact .pure (by simp) (by simp)

/-- A list enters the schema of its items, if it has one. -/
theorem compileList_enters : L.Enters (compileList inner schema) := by
  refine Books.iteBind (Q := PlainNull) (fun hitems => h.enters (.keyword (by decide) hitems) false)
    (fun _ => .pure (by simp) (by simp)) fun item hitem => .pure ?_ (by simp)
  exact .ite (.ite (by simp) (by simp)) (plainNull_andThen.mpr ⟨.ite (by simp) (by simp), by simp⟩)

/-- The check of contents is compiled after the items, so it enters behind them. -/
theorem compileContains_books {before : Set Mark} {e : Expression} (he : e.PlainNull)
    (hmarks : e.marks = before) : L.Books before PlainNull marks (compileContains inner schema e) := by
  refine Books.ite (fun hcontains => ?_) fun _ => .pure he hmarks
  exact (h.enters (.keyword (by decide) hcontains) true).andThen fun item _ =>
    .pure (by simp [he]) (by simp [hmarks])

/-- **An array keeps the books.** -/
theorem compileArray_enters : L.Enters (compileArray env inner schema) := by
  refine Books.iteBind (fun _ => compileTuple_enters h) (fun _ => compileList_enters h) fun e he => ?_
  refine (compileContains_books h (.ite (by simp [he]) he) ?_).bind fun e he =>
    .pure (by simp [he]) (by simp)
  split <;> simp

end Arrays

/-! ## Objects -/

section Objects

variable {inner : Inner} {e : Expression}

/-- Commas have no marks. -/
theorem marks_commaParts : ∀ ns : List Node, Part.marksAll (commaParts ns) = Node.marksAll ns
  | [] => by simp [commaParts]
  | [n] => by simp [commaParts]
  | n :: m :: ns => by
    show Part.marksAll (.node n :: .text ", " :: commaParts (m :: ns)) = _
    simp [marks_commaParts (m :: ns)]

@[simp] theorem marks_admitAll : (admitAll e).marks = e.marks := by simp [admitAll]

@[simp] theorem plainNull_admitAll : (admitAll e).PlainNull ↔ e.PlainNull := by simp [admitAll]

@[simp] theorem marks_ensureAdmits : (ensureAdmits e).marks = e.marks := by
  unfold ensureAdmits
  split <;> simp

@[simp] theorem plainNull_ensureAdmits : (ensureAdmits e).PlainNull ↔ e.PlainNull := by
  unfold ensureAdmits
  split <;> simp

@[simp] theorem marks_propertyCount : (propertyCount schema e).marks = e.marks := by
  simp [propertyCount]

theorem plainNull_propertyCount (he : e.PlainNull) : (propertyCount schema e).PlainNull := by
  unfold propertyCount
  exact he.ite (by simp [he])

/-- Required names that are not declared are read from the object, and declare nothing themselves.
-/
theorem undeclaredRequired_marks {e' : Expression} (he : e.PlainNull)
    (h : undeclaredRequired schema e = .ok e') : e'.PlainNull ∧ e'.marks = e.marks := by
  obtain ⟨declared, -, h⟩ := Outcome.bind_eq_ok.mp h
  obtain ⟨required, -, h⟩ := Outcome.bind_eq_ok.mp h
  dsimp only at h
  split at h
  · cases h
    exact ⟨he, rfl⟩
  · obtain ⟨reads, -, h⟩ := Outcome.bind_eq_ok.mp h
    cases h
    simp [he]

/-- Rules for names are code. -/
theorem propertyNames_marks {e' : Expression} (he : e.PlainNull)
    (h : propertyNames schema e = .ok e') : e'.PlainNull ∧ e'.marks = e.marks := by
  unfold propertyNames at h
  split at h
  · obtain ⟨checks, -, h⟩ := Outcome.bind_eq_ok.mp h
    split at h
    · cases h
      exact ⟨he, rfl⟩
    · cases h
      simp [he]
  · cases h
    exact ⟨he, rfl⟩

/-- A property enters its definition; whether it is optional makes no difference to the marks. -/
theorem compileProperty_books {required : List Scalar} {comments : Bool} {name : Scalar}
    {definition : Value} (hname : L.allows name) (h : L.Enters (inner definition false)) :
    L.Books ∅ (fun p => L.allows p.name) (fun p => p.value.marks)
      (compileProperty env inner required comments name definition) := by
  refine h.bind fun e _ => ?_
  have hvalue : (if required.any (·.same name) then e else e.andThen "optional" []).marks =
      e.marks := by simp
  refine Books.ite (fun _ => ?_) fun _ => .pure hname hvalue
  exact (Books.report _).andThen fun _ _ => .pure hname (by rw [Set.union_empty]; exact hvalue)

/-- **A shape declares only visible properties.** -/
theorem compileShape_books {D : Value → Prop} (h : InnerBooks L D inner) {comments : Bool}
    (hD : ∀ name v, DeclaresOwn schema name v → D v) (hnames : Allows L env (DeclaresOwn schema)) :
    L.Books ∅ (fun _ => True) Node.marks (compileShape env inner comments schema) := by
  refine Books.liftBind fun required _ => Books.liftBind fun properties hproperties => ?_
  refine (Books.mapM fun f hf => ?_).bind fun ps hps => Books.shape hps rfl rfl
  obtain ⟨hmem, hvisible⟩ := List.mem_filter.mp hf
  have hdeclared : DeclaresOwn schema f.1 f.2 := ⟨properties, hproperties, hmem⟩
  exact compileProperty_books (hnames f.1 f.2 hdeclared hvisible) (h.enters (hD _ _ hdeclared) false)

/-- Rules between properties, none of which lets null pass. -/
def PlainRules (ms : List Modifier) : Prop := ∀ m ∈ ms, m.name ≠ "nullable"

theorem plainRules_superRefine (parts : List Part) : PlainRules [superRefine parts] := by
  simp [PlainRules, superRefine, Modifier.name]

@[simp] theorem marks_superRefine (parts : List Part) :
    Modifier.marksAll [superRefine parts] = Part.marksAll parts := by
  simp [superRefine]

/-- Names that require other names are code as well. -/
theorem dependentRequired_marks {ms : List Modifier} (h : dependentRequired schema = .ok ms) :
    PlainRules ms ∧ Modifier.marksAll ms = ∅ := by
  unfold dependentRequired at h
  split at h
  · obtain ⟨checks, -, h⟩ := Outcome.bind_eq_ok.mp h
    split at h
    · cases h
      simp [PlainRules]
    · cases h
      exact ⟨plainRules_superRefine _, by simp⟩
  · cases h
    simp [PlainRules]

variable (h : InnerBooks L (PartOf schema) inner)
include h

/-- What other properties have to be enters behind the shape. -/
theorem additional_books {before : Set Mark} (he : e.PlainNull) (hmarks : e.marks = before) :
    L.Books before PlainNull marks (additional inner schema e) := by
  unfold additional
  split
  · rename_i fields hfields
    have hpart : PartOf schema (.object fields) := .of_value (by decide) hfields
    exact (h.enters hpart false).andThen fun r _ => .pure (by simp [he]) (by simp [hmarks])
  · exact .pure (by simp [he]) (by simp [hmarks])
  · exact .pure (.ite (by simp [he]) he) (by split <;> simp [hmarks])
  · exact .pure he hmarks

/-- Properties by pattern are compiled like others, but none of their names is declared. -/
theorem patternProperties_books {before : Set Mark} (he : e.PlainNull) (hmarks : e.marks = before) :
    L.Books before PlainNull marks (patternProperties inner schema e) := by
  unfold patternProperties
  split
  · rename_i p ps hpatterns
    refine Books.liftBind fun declared _ => ?_
    refine (enters_mapM fun f hf => h.enters (.entry (by decide) hpatterns hf) false).andThen
      fun es _ => ?_
    refine Books.liftBind fun names _ => Books.liftBind fun sources _ => .pure (by simp [he]) ?_
    simp [hmarks, marks_commaParts]
  · exact .pure he hmarks

/-- A dependency on a schema enters the schema, one on names enters nothing. -/
theorem dependencies_books :
    L.Books ∅ PlainRules Modifier.marksAll (dependencies inner schema) := by
  have hnone : L.Books ∅ PlainRules Modifier.marksAll (pure []) :=
    .pure (by simp [PlainRules]) (by simp)
  unfold dependencies
  split
  · rename_i entries hentries
    refine (Books.mapM (R := PlainRules) (B := Modifier.marksAll) fun f hf => ?_).bind
      fun found hfound => .pure ?_ ?_
    · obtain ⟨property, dependency⟩ := f
      cases dependency with
      | scalar s => exact hnone
      | list required =>
        cases required with
        | nil => exact hnone
        | cons r rs =>
          exact Books.liftBind fun check _ => .pure (plainRules_superRefine _) (by simp)
      | object asked =>
        refine Books.bind (Q := fun m => PlainRules [m])
          (A := fun m => Modifier.marksAll [m]) ?_ fun m hm => .pure hm rfl
        refine (h.enters (.entry (by decide) hentries hf) true).bind fun r _ => ?_
        refine Books.liftBind fun read _ => Books.liftBind fun place _ => ?_
        exact .pure (plainRules_superRefine _) (by simp)
    · intro m hm
      obtain ⟨ms, hms, hm⟩ := List.mem_flatten.mp hm
      exact hfound ms hms m hm
    · ext k
      simp only [Modifier.marksAll, List.mem_flatten, Set.mem_ofPred_eq]
      constructor
      · rintro ⟨m, ⟨ms, hms, hm⟩, hk⟩
        exact ⟨ms, hms, m, hm, hk⟩
      · rintro ⟨ms, hms, m, hm, hk⟩
        exact ⟨m, ⟨ms, hms, hm⟩, hk⟩
  · exact hnone

/-- A side of a condition that is not there enters nothing. -/
theorem branchCheck_books {k : String} (hk : k ∈ schemaKeywords) :
    L.Books ∅ (fun _ => True) Part.marksAll (branchCheck inner (schema.value k)) := by
  refine Books.ite (fun hb => ?_) fun _ => .pure trivial (by simp)
  exact (h.enters (.keyword hk hb) true).bind fun r _ => .pure trivial (by simp)

/-- A condition enters its test and its two sides, in this order. -/
theorem ifThenElse_books :
    L.Books ∅ PlainRules Modifier.marksAll (ifThenElse inner schema) := by
  refine Books.ite (fun hc => ?_) fun _ => .pure (by simp [PlainRules]) (by simp)
  have hif : (schema.value "if").isObject = true := (Bool.and_eq_true_iff.mp hc).1
  refine (h.enters (.keyword (by decide) hif) true).bind fun test _ => ?_
  refine (branchCheck_books h (by decide)).andThen fun yes _ => ?_
  refine (branchCheck_books h (by decide)).andThen fun no _ => .pure (plainRules_superRefine _) ?_
  simp [Set.union_assoc]

/-- **An object keeps the books.** -/
theorem compileObject_enters (hnames : Allows L env (DeclaresOwn schema)) :
    L.Enters (compileObject env inner schema) := by
  have hparts : ∀ name v, DeclaresOwn schema name v → PartOf schema v :=
    fun _ _ ⟨_, hdeclared, hheld⟩ => .property hdeclared hheld
  refine (compileShape_books h hparts hnames).bind fun shape _ => ?_
  refine (additional_books h (by simp) (by simp)).bind fun e he => ?_
  refine Books.liftBind fun e₁ h₁ => ?_
  obtain ⟨he₁, hmarks₁⟩ := undeclaredRequired_marks (plainNull_propertyCount he) h₁
  refine (patternProperties_books h he₁ (by simpa using hmarks₁)).bind fun e₂ he₂ => ?_
  refine Books.liftBind fun e₃ h₃ => ?_
  obtain ⟨he₃, hmarks₃⟩ := propertyNames_marks he₂ h₃
  refine (dependencies_books h).andThen fun ms hms => ?_
  refine Books.liftBind fun ms₁ hms₁ => ?_
  obtain ⟨hplain₁, hnone₁⟩ := dependentRequired_marks hms₁
  refine (ifThenElse_books h).andThen fun ms₂ hms₂ => .pure ?_ ?_
  · exact ((PlainNull.append he₃ hms).append hplain₁).append hms₂
  · simp [← hmarks₃, marks_eq, hnone₁, Set.union_assoc]

end Objects

end SchemaForge.Compile
