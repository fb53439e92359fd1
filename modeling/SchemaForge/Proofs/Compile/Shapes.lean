import SchemaForge.Proofs.Compile.BranchWalk
import SchemaForge.Proofs.Compile.Onward
import SchemaForge.Proofs.Compile.Outlook
import SchemaForge.Proofs.Compile.Scanning
import SchemaForge.Proofs.Compile.Visible
import SchemaForge.Proofs.Expression.Entries
import SchemaForge.Proofs.Expression.Refinements

/-!
# Shapes of inline objects

An inline object says that it is one and is no composition. What it compiles to holds one entry for
each of its visible properties: the compiled definition, which is optional unless the property is
required. Everything else that is said about the object comes after the shape and adds no entries.
-/

namespace SchemaForge.Compile

open Reference Schema Visibility

variable {env : Environment} {start p q : Progress} {branch fields schema : Fields} {n k : Scalar}
  {omitted : List Scalar} {e x : Expression}

/-! ## Inline objects -/

/-- A schema of type `object` that is no reference, constant, enum, negation or composition. -/
structure InlineObject (branch : Fields) : Prop where
  typed : branch.value "type" = .text "object"
  plain : ∀ k ∈ ["$ref", "const", "enum", "not", "allOf", "oneOf", "anyOf"], branch.has k = false

/-- The properties that a schema declares itself. -/
def ownProperties (schema : Fields) : Fields :=
  match schema.value "properties" with
  | .object properties => properties
  | _ => []

/-- Whether a schema lists a name among its required ones. -/
def requires (schema : Fields) (n : Scalar) : Bool :=
  match (schema.value "required").walkIfSet with
  | .ok entries => entries.any (·.same (.scalar n))
  | .error _ => false

theorem ownProperties_of_object {properties : Fields}
    (h : schema.value "properties" = .object properties) : ownProperties schema = properties := by
  rw [ownProperties, h]

theorem ownProperties_of_not_object
    (h : ∀ properties, schema.value "properties" ≠ .object properties) :
    ownProperties schema = [] := by
  unfold ownProperties
  split
  · rename_i properties hvalue
    exact absurd hvalue (h properties)
  · rfl

/-- Properties that can be read are those of the schema itself. -/
theorem eq_ownProperties {properties : Fields}
    (h : (schema.value "properties").fieldsIfSet = .ok properties) :
    properties = ownProperties schema := by
  unfold ownProperties
  split
  · rename_i own hown
    rw [hown, fieldsIfSet_object] at h
    cases h
    rfl
  · rename_i hnone
    exact (Value.fieldsIfSet_eq_ok h).resolve_right (hnone properties)

theorem distinct_ownProperties (h : Fields.distinct schema = true) :
    Fields.distinct (ownProperties schema) = true := by
  have hvalue := Fields.distinct_value h "properties"
  unfold ownProperties
  split
  · rename_i own hown
    rwa [hown] at hvalue
  · rfl

/-- Names that count as the same are required together. -/
theorem requires_congr (h : n.same k = true) (schema : Fields) :
    requires schema n = requires schema k := by
  have hsame : ∀ entry : Value, entry.same (.scalar n) = entry.same (.scalar k) := by
    intro entry
    cases entry with
    | scalar s => exact Scalar.same_congr h
    | list items => rfl
    | object fields => rfl
  unfold requires
  simp only [hsame]

/-- The required names that are read are the entries of the list. -/
theorem requires_of_names {names : List Scalar} (h : requiredNames schema = .ok names)
    (n : Scalar) : names.any (·.same n) = requires schema n := by
  obtain ⟨entries, hwalk, hnames⟩ := Outcome.bind_eq_ok.mp h
  rw [Bool.eq_iff_iff, any_asName hnames, requires, hwalk, List.any_eq_true]

/-- A name among the required entries that are left. -/
theorem any_filter_entries {entries : List Value} {keep : Value → Bool}
    (h : ∀ m : Scalar, m.same n = true → keep (.scalar m) = true) :
    (entries.filter keep).any (·.same (.scalar n)) = entries.any (·.same (.scalar n)) := by
  rw [Bool.eq_iff_iff, List.any_eq_true, List.any_eq_true]
  constructor
  · rintro ⟨entry, hentry, hsame⟩
    exact ⟨entry, List.mem_of_mem_filter hentry, hsame⟩
  · rintro ⟨entry, hentry, hsame⟩
    refine ⟨entry, List.mem_filter.mpr ⟨hentry, ?_⟩, hsame⟩
    cases entry with
    | scalar m => exact h m hsame
    | list items => cases hsame
    | object fields => cases hsame

/-! ## What adds no entries -/

/-- An expression made of another one by calls that add no entries. -/
structure Dresses (e x : Expression) : Prop where
  entries : x.entries = e.entries
  spelledOut : e.SpelledOut → x.SpelledOut
  definite : e.Definite → x.Definite

namespace Dresses

theorem refl (e : Expression) : Dresses e e := ⟨rfl, id, id⟩

theorem trans {y : Expression} (h : Dresses e x) (h' : Dresses x y) : Dresses e y :=
  ⟨h'.entries.trans h.entries, fun he => h'.spelledOut (h.spelledOut he),
    fun he => h'.definite (h.definite he)⟩

/-- A call of any other name than those four. -/
theorem call {name : String} (h : name ∉ ["optional", "extend", "omit", "and"]) (e : Expression)
    (args : List Node) : Dresses e (e.andThen name args) := by
  simp only [List.mem_cons, not_or] at h
  exact ⟨Expression.entries_andThen h.2.1 e args, fun he => he.andThen (by simpa using h.2) args,
    fun he => he.andThen h.1 args⟩

theorem ite {c : Prop} [Decidable c] {y : Expression} (h : Dresses e x) (h' : Dresses e y) :
    Dresses e (if c then x else y) := by
  split
  · exact h
  · exact h'

theorem nullableIf (e : Expression) (nullable : Bool) : Dresses e (e.nullableIf nullable) := by
  cases nullable with
  | true => exact call (by decide) e []
  | false => exact refl e

theorem describe (e : Expression) (description : Value) (asked : Bool) :
    Dresses e (e.describe description asked) := by
  unfold Expression.describe
  split
  · exact ite (call (by decide) e _) (refl e)
  · exact refl e

theorem admitAll (e : Expression) : Dresses e (Compile.admitAll e) := call (by decide) e _

theorem ensureAdmits (e : Expression) : Dresses e (Compile.ensureAdmits e) :=
  ite (refl e) (admitAll e)

/-- Refinements are such calls. -/
theorem refined (h : e.RefinedTo x) : Dresses e x := by
  obtain ⟨ms, rfl, hms⟩ := h
  have hname : ∀ m ∈ ms, m.name = "refine" ∨ m.name = "superRefine" := by simpa using hms
  refine ⟨Expression.entries_rules fun m hm => ?_, fun he => he.append fun m hm => ?_,
    fun he => he.append fun m hm => ?_⟩ <;>
    obtain h | h := hname m hm <;> rw [h]
  · decide
  · decide
  · exact ⟨by decide, fun hname => absurd hname (by decide)⟩
  · exact ⟨by decide, fun hname => absurd hname (by decide)⟩
  · decide
  · decide

theorem admitUnevaluated (e : Expression) : Dresses e (Compile.admitUnevaluated e) :=
  ite (admitAll e) (refl e)

/-- Without a final `nullable` a chain holds the same. -/
theorem bare (e : Expression) :
    Dresses e (if e.isNullable then ⟨e.base, e.modifiers.dropLast⟩ else e) := by
  split
  · rename_i hnullable
    exact ⟨Expression.entries_dropNullable hnullable, Expression.SpelledOut.dropLast,
      Expression.Definite.dropLast⟩
  · exact refl e

end Dresses

variable {inner : Inner}

/-- What other properties have to be comes after the shape, as a catchall. -/
theorem dresses_additional : Ends (Dresses e) (additional inner schema e) := by
  unfold additional
  split
  · exact Ends.bind fun x => .pure (.call (by decide) e _)
  · exact .pure (.admitAll e)
  · exact .pure (.ite (.admitAll e) (.refl e))
  · exact .pure (.refl e)

theorem refinedTo_propertyCount : e.RefinedTo (propertyCount schema e) := by
  unfold propertyCount
  dsimp only
  exact .ite (.refl e) (.call (by decide) e _)

/-- Required names that are not declared add a rule, and let other properties pass. -/
theorem dresses_undeclaredRequired (h : undeclaredRequired schema e = .ok x) : Dresses e x := by
  obtain ⟨declared, -, h⟩ := Outcome.bind_eq_ok.mp h
  obtain ⟨required, -, h⟩ := Outcome.bind_eq_ok.mp h
  dsimp only at h
  split at h
  · cases h
    exact .refl e
  · obtain ⟨reads, -, h⟩ := Outcome.bind_eq_ok.mp h
    cases h
    exact (Dresses.ensureAdmits e).trans (.call (by decide) _ _)

/-- Properties by pattern add one rule for all patterns. -/
theorem refinedTo_patternProperties : Ends e.RefinedTo (patternProperties inner schema e) := by
  unfold patternProperties
  split
  · refine Ends.bind fun declared => Ends.bind fun compiled => Ends.bind fun names => ?_
    exact Ends.bind fun sources => .pure (.call (by decide) e _)
  · exact .pure (.refl e)

theorem refinedTo_propertyNames (h : propertyNames schema e = .ok x) : e.RefinedTo x := by
  unfold propertyNames at h
  split at h
  · obtain ⟨checks, -, h⟩ := Outcome.bind_eq_ok.mp h
    split at h
    · cases h
      exact .refl e
    · cases h
      exact .call (by decide) e _
  · cases h
    exact .refl e

theorem Ends.mapM {α β : Type} {R : β → Prop} {f : α → Compile β} {l : List α}
    (h : ∀ a ∈ l, Ends R (f a)) : Ends (fun ys => ∀ y ∈ ys, R y) (l.mapM f) := by
  intro p ys q hrun
  have hall := (run_mapM_eq_ok (I := fun _ => True) (R := fun _ y => R y)
    (fun a ha p y q _ hy => ⟨h a ha p y q hy, trivial⟩) trivial hrun).1
  intro y hy
  obtain ⟨-, -, hR⟩ := Outcome.exists_left_of_mem hall hy
  exact hR

/-- Rules between properties are refinements. -/
def Refines (ms : List Modifier) : Prop := ∀ m ∈ ms, m.name = "superRefine"

theorem refines_superRefine (parts : List Part) : Refines [superRefine parts] :=
  List.forall_mem_singleton.mpr rfl

theorem refines_nil : Refines [] := nofun

theorem Refines.refinedTo {ms : List Modifier} (h : Refines ms) (e : Expression) :
    e.RefinedTo ⟨e.base, e.modifiers ++ ms⟩ :=
  ⟨ms, rfl, fun m hm => by rw [h m hm]; decide⟩

theorem refines_dependentRequired {ms : List Modifier} (h : dependentRequired schema = .ok ms) :
    Refines ms := by
  unfold dependentRequired at h
  split at h
  · obtain ⟨checks, -, h⟩ := Outcome.bind_eq_ok.mp h
    split at h
    · cases h
      exact refines_nil
    · cases h
      exact refines_superRefine _
  · cases h
    exact refines_nil

/-- Every dependency that asks for something adds a rule. -/
theorem refines_dependencies : Ends Refines (dependencies inner schema) := by
  unfold dependencies
  split
  · refine Ends.andThen (Ends.mapM (R := Refines) fun f _ => ?_) fun found hfound =>
      .pure fun m hm => ?_
    · obtain ⟨property, dependency⟩ := f
      cases dependency with
      | scalar s => exact .pure refines_nil
      | list required =>
        cases required with
        | nil => exact .pure refines_nil
        | cons r rs => exact Ends.bind fun check => .pure (refines_superRefine _)
      | object asked =>
        refine Ends.andThen (R := fun m => Refines [m]) ?_ fun m hm => .pure hm
        refine Ends.bind fun compiled => Ends.bind fun read => Ends.bind fun place => ?_
        exact .pure (refines_superRefine _)
    · obtain ⟨ms, hms, hm⟩ := List.mem_flatten.mp hm
      exact hfound ms hms m hm
  · exact .pure refines_nil

theorem refines_ifThenElse : Ends Refines (ifThenElse inner schema) := by
  unfold ifThenElse
  dsimp only
  split
  · exact Ends.bind fun test => Ends.bind fun yes => Ends.bind fun no => .pure (refines_superRefine _)
  · exact .pure refines_nil

/-- The check of unevaluated properties comes before a final `nullable`, and adds no entries. -/
theorem dresses_checkUnevaluated : Ends (Dresses e) (checkUnevaluated env inner schema e) := by
  have hchecked : ∀ args : List Node, Dresses e
      (((admitUnevaluated (if e.isNullable then ⟨e.base, e.modifiers.dropLast⟩ else e)).andThen
        "refine" args).nullableIf e.isNullable) := fun args =>
    (((Dresses.bare e).trans (.admitUnevaluated _)).trans (.call (by decide) _ args)).trans (.nullableIf _ _)
  unfold checkUnevaluated
  dsimp only
  split
  · exact Ends.bind fun names => Ends.bind fun evaluated => .pure (hchecked _)
  · refine Ends.bind fun names => Ends.bind fun evaluated => ?_
    refine Ends.andThen (R := fun x => ∃ args, x = (admitUnevaluated
      (if e.isNullable then ⟨e.base, e.modifiers.dropLast⟩ else e)).andThen "refine" args)
      (Ends.bind fun rule => .pure ⟨_, rfl⟩) ?_
    rintro _ ⟨args, rfl⟩
    exact .pure (hchecked args)
  · exact .pure (.refl e)

/-! ## Shapes -/

/-- The entry of a property: its compiled definition, which is optional unless it is required. -/
def entryOf (required : Bool) (e : Expression) : Node :=
  (if required then e else e.andThen "optional" []).toNode

/-- An entry that is made of a definition in the course of a run. -/
def EntryFor (env : Environment) (start : Progress) (required : Bool) (name : Scalar)
    (definition : Value) (entry : Property) : Prop :=
  entry.name = name ∧
    ∃ e, CompiledFrom env start definition e ∧ entry.value = entryOf required e

/-- What is visible of a definition: the definition itself or what filtering leaves of it. -/
def VersionOf (env : Environment) (definition version : Value) : Prop :=
  version = definition ∨ env.context.visibility.filterSchema definition = .ok version

/-- The entry that a branch offers for one of its properties. -/
def Offers (env : Environment) (start : Progress) (branch : Fields) (f : Scalar × Value)
    (entry : Property) : Prop :=
  ∃ version, VersionOf env f.2 version ∧
    EntryFor env start (requires branch f.1) f.1 version entry

/-- The properties of a branch that are visible. -/
def visibleProperties (env : Environment) (properties : Fields) : Fields :=
  properties.filter fun f => env.context.visibility.shows f.2

variable {levels : Nat}

/-- The entry of a property is made of what its definition compiles to. -/
theorem run_compileProperty {required : List Scalar} {comments : Bool} {definition : Value}
    {entry : Property} (hp : Onward env start p)
    (h : (compileProperty env (within env (compileReference env) levels) required comments n
      definition).run p = (.ok entry, q)) :
    EntryFor env start (required.any (·.same n)) n definition entry ∧ Onward env start q := by
  obtain ⟨e, r, hrun, h⟩ := run_bind_eq_ok h
  have hr : Onward env start r := hp.of_run hrun
  have hcompiled : CompiledFrom env start definition e := ⟨levels, p, r, hp, hrun⟩
  cases comments with
  | true =>
    obtain ⟨_, r', hreport, h⟩ := run_bind_eq_ok h
    cases hreport
    cases h
    exact ⟨⟨rfl, e, hcompiled, rfl⟩, hr.aside ⟨rfl, List.Subset.refl _⟩ rfl⟩
  | false =>
    cases h
    exact ⟨⟨rfl, e, hcompiled, rfl⟩, hr⟩

/-- **A shape has an entry for each visible property.** -/
theorem run_compileShape {comments : Bool} {node : Node} (hp : Onward env start p)
    (h : (compileShape env (within env (compileReference env) levels) comments schema).run p =
      (.ok node, q)) :
    ∃ entries, node = .shape entries ∧ List.Forall₂
      (fun f => EntryFor env start (requires schema f.1) f.1 f.2)
      (visibleProperties env (ownProperties schema)) entries ∧ Onward env start q := by
  obtain ⟨required, hrequired, h⟩ := run_liftBind_eq_ok h
  obtain ⟨properties, hproperties, h⟩ := run_liftBind_eq_ok h
  obtain ⟨entries, r, hentries, h⟩ := run_bind_eq_ok h
  cases h
  obtain rfl := eq_ownProperties hproperties
  obtain ⟨hall, hq⟩ := run_mapM_eq_ok (I := Onward env start)
    (R := fun f => EntryFor env start (required.any (·.same f.1)) f.1 f.2)
    (fun f _ p entry q hp h => run_compileProperty hp h) hp hentries
  refine ⟨entries, rfl, hall.imp fun f entry hentry => ?_, hq⟩
  rwa [← requires_of_names hrequired]

/-! ## Visible properties -/

/-- Names that are visible stay as required as they were. -/
theorem requires_visible {kept properties filtered : Fields} {entries : List Value} {v : Value}
    (hwalk : (branch.value "required").walkIfSet = .ok entries) (hkept : (n, v) ∈ kept) :
    requires (withRequired filtered (entries.filter (remains properties kept))) n =
      requires branch n := by
  unfold requires
  rw [walkIfSet_withRequired, hwalk]
  refine any_filter_entries fun m hm => ?_
  have hname : kept.hasName m = true := by
    by_contra hnone
    have hdiffers := hasName_eq_false.mp (Bool.not_eq_true _ ▸ hnone) _ hkept
    rw [Scalar.same_symm hm] at hdiffers
    cases hdiffers
  rw [remains, hname, Bool.true_or]

/-- **Filtering leaves the visible properties of an object in their places, each with what is visible
of it, and as required as they were.** -/
theorem forall₂_visibleFields (hplain : branch.has "$ref" = false)
    (h : visibleFields env branch = .ok fields) :
    List.Forall₂ (fun f f' => f.1 = f'.1 ∧ VersionOf env f.2 f'.2 ∧
        requires fields f.1 = requires branch f.1)
      (visibleProperties env (ownProperties branch))
      (visibleProperties env (ownProperties fields)) := by
  have hself : List.Forall₂ (fun f f' => f.1 = f'.1 ∧ VersionOf env f.2 f'.2 ∧
        requires branch f.1 = requires branch f.1)
      (visibleProperties env (ownProperties branch))
      (visibleProperties env (ownProperties branch)) :=
    List.forall₂_same.mpr fun f _ => ⟨rfl, Or.inl rfl, rfl⟩
  by_cases hwhole : env.context.visibility = .all ∨ branch.has "properties" = false
  · rw [visibleFields_eq_self hwhole] at h
    cases h
    exact hself
  obtain ⟨hvis, hdeclares⟩ := not_or.mp hwhole
  rw [visibleFields_of_properties hvis (by simpa using hdeclares)] at h
  obtain ⟨_, hfilter, h⟩ := Outcome.bind_eq_ok.mp h
  obtain ⟨after, rfl, hafter⟩ := (filterSchema_object hplain).mp hfilter
  cases h
  cases hafter with
  | plain undeclared inside =>
    have hnone : ownProperties fields = [] := ownProperties_of_not_object fun properties hvalue => by
      rw [value_properties_of_not_object inside undeclared] at hvalue
      exact undeclared properties hvalue
    rw [ownProperties_of_not_object undeclared, hnone]
    exact .nil
  | @declared filtered properties kept entries inside before after visible walked names =>
    have hall := forall₂_of_filterVisible visible
    have hshown : visibleProperties env kept = kept := by
      refine List.filter_eq_self.mpr fun f hf => ?_
      obtain ⟨f', hf', -, hv⟩ := Outcome.exists_left_of_mem hall hf
      rw [shows_filterSchema hv]
      exact (List.mem_filter.mp hf').2
    rw [ownProperties_of_object before, ownProperties_of_object
      (by rw [value_withRequired (by decide), after]), hshown]
    refine (Outcome.forall₂_mem hall).imp ?_
    rintro ⟨name, v⟩ ⟨name', v'⟩ ⟨-, hmem, hname, hv⟩
    dsimp only at hname hv
    subst hname
    exact ⟨rfl, Or.inr hv, requires_visible walked hmem⟩

/-! ## Objects -/

/-- An expression that spells out an entry for each visible property of a schema. -/
structure Spells (env : Environment) (start : Progress) (schema : Fields) (e : Expression) : Prop where
  entries : List.Forall₂ (fun f => EntryFor env start (requires schema f.1) f.1 f.2)
    (visibleProperties env (ownProperties schema)) e.entries
  spelledOut : e.SpelledOut
  definite : e.Definite

theorem Spells.dressed (h : Spells env start schema e) (hx : Dresses e x) :
    Spells env start schema x := by
  refine ⟨?_, hx.spelledOut h.spelledOut, hx.definite h.definite⟩
  rw [hx.entries]
  exact h.entries

/-- An object is compiled in stages: its shape, then what lets other properties pass, and then the
refinements, of which the rules between properties are the last. -/
theorem stages_of_compileObject {inner : Inner}
    (h : (compileObject env inner schema).run p = (.ok e, q)) :
    ∃ shape r e₁ e₂ e₃ e₄ rules, (compileShape env inner true schema).run p = (.ok shape, r) ∧
      (∃ r q, (additional inner schema (zod (objectConstructor env schema) [shape])).run r =
        (.ok e₁, q)) ∧
      undeclaredRequired schema (propertyCount schema e₁) = .ok e₂ ∧
      (∃ r q, (patternProperties inner schema e₂).run r = (.ok e₃, q)) ∧
      propertyNames schema e₃ = .ok e₄ ∧ Refines rules ∧ e = ⟨e₄.base, e₄.modifiers ++ rules⟩ := by
  obtain ⟨shape, p₁, hshape, h⟩ := run_bind_eq_ok h
  obtain ⟨e₁, p₂, hadditional, h⟩ := run_bind_eq_ok h
  obtain ⟨e₂, hundeclared, h⟩ := run_liftBind_eq_ok h
  obtain ⟨e₃, p₃, hpatterns, h⟩ := run_bind_eq_ok h
  obtain ⟨e₄, hnames, h⟩ := run_liftBind_eq_ok h
  obtain ⟨ms, p₄, hdependencies, h⟩ := run_bind_eq_ok h
  obtain ⟨ms', hrequired, h⟩ := run_liftBind_eq_ok h
  obtain ⟨ms'', p₅, hconditions, h⟩ := run_bind_eq_ok h
  cases h
  refine ⟨shape, p₁, e₁, e₂, e₃, e₄, ms ++ ms' ++ ms'', hshape, ⟨_, _, hadditional⟩, hundeclared,
    ⟨_, _, hpatterns⟩, hnames, ?_, ?_⟩
  · intro m hm
    simp only [List.mem_append] at hm
    rcases hm with (hm | hm) | hm
    · exact refines_dependencies _ _ _ hdependencies m hm
    · exact refines_dependentRequired hrequired m hm
    · exact refines_ifThenElse _ _ _ hconditions m hm
  · rw [List.append_assoc, List.append_assoc, ← List.append_assoc ms]

/-- **An object spells out its visible properties.** -/
theorem run_compileObject (hp : Onward env start p)
    (h : (compileObject env (within env (compileReference env) levels) schema).run p = (.ok e, q)) :
    Spells env start schema e := by
  obtain ⟨shape, r, e₁, e₂, e₃, e₄, rules, hshape, ⟨_, _, hadditional⟩, hundeclared,
    ⟨_, _, hpatterns⟩, hnames, hrules, rfl⟩ := stages_of_compileObject h
  obtain ⟨entries, rfl, hall, -⟩ := run_compileShape hp hshape
  have hshape : Spells env start schema (zod (objectConstructor env schema) [.shape entries]) := by
    refine ⟨?_, .call fun n hn => ⟨entries, (List.singleton_inj.mp hn).symm⟩, .base _⟩
    show List.Forall₂ _ _ (entries ++ [])
    rwa [List.append_nil]
  have hrefined := ((refinedTo_patternProperties _ _ _ hpatterns).trans
    (refinedTo_propertyNames hnames)).trans (hrules.refinedTo e₄)
  exact hshape.dressed ((((dresses_additional _ _ _ hadditional).trans
    (.refined refinedTo_propertyCount)).trans (dresses_undeclaredRequired hundeclared)).trans
    (.refined hrefined))

/-- The same for the form of an object, which has no shape if nothing is said about properties. -/
theorem run_compileObjectForm {constrained : Bool} (hp : Onward env start p)
    (hconstrained : constrained = false → schema.has "properties" = false)
    (h : (compileObjectForm env (within env (compileReference env) levels) schema constrained).run p =
      (.ok e, q)) : Spells env start schema e := by
  unfold compileObjectForm at h
  split at h
  · obtain ⟨e₁, p₁, hobject, h⟩ := run_bind_eq_ok h
    obtain ⟨e₂, p₂, hchecked, h⟩ := run_bind_eq_ok h
    cases h
    exact ((run_compileObject hp hobject).dressed (dresses_checkUnevaluated _ _ _ hchecked)).dressed
      (.describe e₂ _ _)
  · rename_i hplain
    -- nothing is declared, and no base that is chosen for that spells out properties
    have hnone : ownProperties schema = [] := by
      have hvalue : schema.value "properties" = .null :=
        Fields.value_eq_null (by simp [hconstrained (by simpa using hplain)])
      rw [ownProperties, hvalue]
    have hempty : ∀ {name : String} {args : List Node}, Expression.shapeEntries (.call name args) = [] →
        (∀ n, args = [n] → ∃ ps, n = .shape ps) → Spells env start schema
          ((⟨.call name args, []⟩ : Expression).describe (schema.value "description")
            env.describes) := by
      intro name args hentries hargs
      refine Spells.dressed ⟨?_, .call hargs, .base _⟩ (.describe _ _ _)
      rw [hnone, Expression.entries, hentries]
      exact .nil
    have hshape : ∀ n : Node, [Node.shape []] = [n] → ∃ ps, n = .shape ps :=
      fun n hn => ⟨[], (List.singleton_inj.mp hn).symm⟩
    have hbase : ∀ o : EmptyObject, Spells env start schema
        ((compileEmptyObject o).describe (schema.value "description") env.describes) := by
      intro o
      cases o with
      | strict => exact hempty rfl hshape
      | record => exact hempty rfl fun n hn => absurd hn (by simp)
      | loose => exact hempty rfl hshape
    split at h
    · obtain ⟨values, p₂, -, h⟩ := run_bind_eq_ok h
      cases h
      exact hempty rfl fun n hn => absurd hn (by simp)
    · cases h
      exact hbase _
    · cases h
      exact hbase _

/-! ## Inline objects -/

namespace InlineObject

theorem not_has (h : InlineObject branch) {k : String}
    (hk : k ∈ ["$ref", "const", "enum", "not", "allOf", "oneOf", "anyOf"]) : branch.has k = false :=
  h.plain k hk

/-- What is visible of an inline object has the form of an object. -/
theorem classify_visible (h : InlineObject branch) (hfields : visibleFields env branch = .ok fields) :
    classify fields = .ok (.object (objectKeywords.any fields.has)) := by
  have htype : fields.value "type" = .text "object" := by
    rw [Fields.value, get?_visibleFields_of_keyword hfields (by decide) (by decide)]
    exact h.typed
  have hnone : ∀ {k}, k ∈ ["$ref", "const", "enum", "not", "allOf", "oneOf", "anyOf"] →
      fields.get? k = none := by
    intro k hk
    have hne : k ≠ "required" := by
      rintro rfl
      exact absurd hk (by decide)
    exact Fields.get?_eq_none (by rw [has_visibleFields hfields hne, h.plain k hk]; decide)
  have htypes : nonNullTypes fields = [.text "object"] := by
    rw [nonNullTypes, htype]
  have hform : formOfType fields = .object (objectKeywords.any fields.has) := by
    unfold formOfType primaryType
    rw [htypes]
    rfl
  unfold classify
  rw [htypes, hnone (k := "$ref") (by decide), hnone (k := "const") (by decide),
    hnone (k := "enum") (by decide), hnone (k := "allOf") (by decide),
    hnone (k := "oneOf") (by decide), hnone (k := "anyOf") (by decide),
    hnone (k := "not") (by decide), hform]
  rfl

/-- An inline object spells out the properties that are visible of it. -/
theorem run_compileFields (h : InlineObject branch) {top flag : Bool} (hp : Onward env start p)
    (hrun : (compileFields env (compileReference env) (within env (compileReference env) levels)
      branch top flag).run p = (.ok e, q)) :
    ∃ fields, visibleFields env branch = .ok fields ∧ Spells env start fields e := by
  obtain ⟨fields, hfields, hrun⟩ := run_liftBind_eq_ok hrun
  obtain ⟨form, hform, hrun⟩ := run_liftBind_eq_ok hrun
  rw [h.classify_visible hfields] at hform
  cases hform
  obtain ⟨e₁, p₁, h₁, hrun⟩ := run_bind_eq_ok hrun
  cases hrun
  refine ⟨fields, hfields, Spells.dressed (run_compileObjectForm hp (fun hnone => ?_) h₁)
    (.nullableIf e₁ _)⟩
  simpa using List.any_eq_false.mp hnone "properties" (by decide)

end InlineObject

/-- A schema that is not answered from the cache: either none is in the session, since it has a name,
or the schema is not there. -/
def Uncached (env : Environment) (p : Progress) (schema : Fields) (top branch : Bool) : Prop :=
  p.session.name.isSome = true ∨
    ∀ key, cacheKey env schema top branch = .ok key → (p.caches.schemas.find key).1 = none

/-- **What a schema compiles to was compiled for it or found under its key.** -/
theorem run_compileCached_cases {top flag : Bool}
    (h : (compileCached env (compileReference env) inner schema top flag).run p = (.ok e, q)) :
    (∃ r, (compileFields env (compileReference env) inner schema top flag).run p = (.ok e, r)) ∨
      p.session.name = none ∧
        ∃ key, cacheKey env schema top flag = .ok key ∧ (p.caches.schemas.find key).1 = some e := by
  cases hkey : cacheKey env schema top flag with
  | error f =>
    rw [run_compileCached_error hkey] at h
    cases h
  | ok key =>
    cases hskip : p.session.name.isSome || namesUncached key with
    | true =>
      rw [run_compileCached_skip hkey hskip] at h
      exact Or.inl ⟨q, h⟩
    | false =>
      rw [run_compileCached_look hkey hskip] at h
      rcases hfind : p.caches.schemas.find key with ⟨found, schemas⟩
      cases found with
      | some x =>
        rw [run_cached_hit hfind] at h
        cases h
        have hname : p.session.name = none := by simpa using (Bool.or_eq_false_iff.mp hskip).1
        exact Or.inr ⟨hname, key, rfl, by rw [hfind]⟩
      | none =>
        rcases hrun : (compileFields env (compileReference env) inner schema top flag).run p with
          ⟨result, r⟩
        cases result with
        | error f =>
          rw [run_cached_error hfind hrun] at h
          cases h
        | ok x =>
          rw [run_cached_ok hfind hrun] at h
          cases h
          exact Or.inl ⟨r, rfl⟩

theorem forall₂_through {α β γ : Type} {R : α → β → Prop} {S : β → γ → Prop} {T : α → γ → Prop}
    {l : List α} {m : List β} {r : List γ} (h : List.Forall₂ R l m) (h' : List.Forall₂ S m r)
    (hT : ∀ x y z, R x y → S y z → T x z) : List.Forall₂ T l r := by
  induction h generalizing r with
  | nil =>
    cases h'
    exact .nil
  | cons hxy _ ih =>
    cases h' with
    | cons hyz h' => exact .cons (hT _ _ _ hxy hyz) (ih h')

/-- **An inline object offers an entry for each of its visible properties.** -/
theorem InlineObject.offers_of_compileFields (hinline : InlineObject branch) {top flag : Bool}
    (hp : Onward env start p)
    (h : (compileFields env (compileReference env) (within env (compileReference env) levels) branch
      top flag).run p = (.ok e, q)) :
    List.Forall₂ (Offers env start branch) (visibleProperties env (ownProperties branch)) e.entries ∧
      e.SpelledOut := by
  obtain ⟨fields, hfields, hspells⟩ := hinline.run_compileFields hp h
  refine ⟨?_, hspells.spelledOut⟩
  have hvisible := forall₂_visibleFields (hinline.not_has (by decide)) hfields
  refine forall₂_through hvisible hspells.entries ?_
  rintro ⟨name, v⟩ ⟨name', v'⟩ entry ⟨hname, hversion, hrequired⟩ hentry
  dsimp only at hname hversion hrequired hentry
  subst hname
  rw [hrequired] at hentry
  exact ⟨v', hversion, hentry⟩

/-- A schema object in a branch is looked up or compiled one level deeper. -/
theorem run_within_object {flag : Bool}
    (h : (within env (compileReference env) levels (.object branch) flag).run p = (.ok e, q)) :
    ∃ levels r, (compileCached env (compileReference env) (within env (compileReference env) levels)
      branch false flag).run p.deeper = (.ok e, r) := by
  cases levels with
  | zero =>
    obtain ⟨s, r, -, h⟩ := run_bind_eq_ok h
    cases h
  | succ levels =>
    unfold within compileWithin at h
    obtain ⟨r, h, -⟩ := run_nested_eq_ok h
    exact ⟨levels, r, h⟩

end SchemaForge.Compile
