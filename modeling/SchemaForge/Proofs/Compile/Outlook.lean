import SchemaForge.Proofs.Compile.CacheKey
import SchemaForge.Proofs.Compile.FilteredBranches
import SchemaForge.Proofs.Compile.Transparency

/-!
# Filtering what is compiled

A schema that declares properties is filtered before it is compiled, and with it all the schemas that
filtering goes into. Any other schema is compiled as it is, and the schemas inside it are filtered
one by one when it is their turn.

The second way is as good as the first, unless a composition looks at its branches before it compiles
them: for the conflicts among them, for the properties that they lose, for those that require a
discriminator, and for the properties that they evaluate. There it sees hidden properties too. Where
it sees the same as in the filtered branches, a schema compiles to what the filtered schema does.
-/

namespace SchemaForge.Compile

open Reference Schema Visibility

/-! ## What compositions look at -/

/-- What an `allOf` composition finds before it compiles its branches: the conflicts, the properties
that each branch loses, and whether anything is left of it. -/
def allOfOutlook (schemas : Fields) (branches : List Value) :
    Except Fault (List String × List (List Scalar) × List (Except Fault Bool)) := do
  let scan ← scanBranches schemas branches
  return (scan.conflicts, scan.overridden,
    (branches.tail.zip scan.overridden.tail).map fun b => (reduceBranch b.2 b.1).map Option.isSome)

/-- What a union with a discriminator finds before it compiles its branches: whether all of them
require it. -/
def unionOutlook (schemas : Fields) (discriminator mapping : Value) (branches : List Value) :
    Except Fault Bool :=
  (if mapping.isSet then orderByMapping mapping branches else pure branches) >>=
    requiredEverywhere schemas discriminator

/-- The keywords of compositions. -/
def compositionKeywords : List String := ["allOf", "oneOf", "anyOf"]

/-- Compositions look at two schemas and see no difference. -/
structure SameOutlook (env : Environment) (schema schema' : Fields) : Prop where
  allOf : ∀ {branches branches' : List Value}, (schema.value "allOf").walk = .ok branches →
    (schema'.value "allOf").walk = .ok branches' → 2 ≤ branches.length →
    allOfOutlook env.schemas branches' = allOfOutlook env.schemas branches
  union : ∀ {kind : UnionKind} {branches branches' : List Value} {discriminator : Fields},
    (schema.value kind.keyword).walk = .ok branches →
    (schema'.value kind.keyword).walk = .ok branches' → 2 ≤ branches.length →
    (schema.value "discriminator").fieldsIfSet = .ok discriminator →
    (discriminator.value "propertyName").isSet = true →
    unionOutlook env.schemas (discriminator.value "propertyName") (discriminator.value "mapping")
        branches' =
      unionOutlook env.schemas (discriminator.value "propertyName") (discriminator.value "mapping")
        branches
  evaluated : schema.value "unevaluatedProperties" = .bool false ∨
      (schema.value "unevaluatedProperties").isObject = true →
    evaluatedNames env schema' = evaluatedNames env schema

/-- Nothing that a composition looks at, in a schema or in the schemas that filtering goes into, is
different after filtering. What stands inside a schema that declares properties is filtered before
anything looks at it. -/
inductive Settled (env : Environment) : Value → Prop where
  | noObject {v : Value} (leaf : ∀ fields, v ≠ .object fields) : Settled env v
  | reference {schema : Fields} (refers : schema.has "$ref" = true) : Settled env (.object schema)
  | declared {schema : Fields} (declares : schema.has "properties" = true) :
      Settled env (.object schema)
  | undeclared {schema : Fields}
      (outlook : ∀ schema', env.context.visibility.filterFields schema = .ok schema' →
        SameOutlook env schema schema')
      (items : Settled env (schema.value "items"))
      (branches : ∀ k ∈ compositionKeywords, ∀ branches, (schema.value k).walk = .ok branches →
        ∀ b ∈ branches, Settled env b)
      -- the later branches of an `allOf` may be taken apart
      (properties : ∀ branches, (schema.value "allOf").walk = .ok branches →
        ∀ fields : Fields, .object fields ∈ branches.tail → fields.has "$ref" = false →
        ∀ properties, fields.value "properties" = .object properties → ∀ f ∈ properties,
        env.context.visibility.shows f.2 = true → Settled env f.2) :
      Settled env (.object schema)

/-- The keywords that compositions stand under or look for, and `items`. -/
def outlookKeywords : List String := ["items", "unevaluatedProperties", "allOf", "oneOf", "anyOf"]

/-- A schema without compositions and items gives them nothing to look at. -/
theorem Settled.of_plain {env : Environment} {schema : Fields}
    (h : ∀ k ∈ outlookKeywords, schema.has k = false) : Settled env (.object schema) := by
  have hnull : ∀ k ∈ outlookKeywords, schema.value k = .null := fun k hk =>
    Fields.value_eq_null (by simp [h k hk])
  have hbranches : ∀ k ∈ compositionKeywords, ∀ branches, (schema.value k).walk ≠ .ok branches := by
    intro k hk branches
    have hsub : ∀ k ∈ compositionKeywords, k ∈ outlookKeywords := by decide
    rw [hnull k (hsub k hk)]
    nofun
  refine .undeclared (fun schema' _ => ⟨?_, ?_, ?_⟩) ?_ ?_ ?_
  · exact fun hwalk => absurd hwalk (hbranches _ (by decide) _)
  · exact fun {kind} _ _ _ hwalk => absurd hwalk (hbranches _ (by cases kind <;> decide) _)
  · rw [hnull _ (by decide)]
    rintro (hrule | hrule) <;> cases hrule
  · rw [hnull _ (by decide)]
    exact .noObject nofun
  · exact fun k hk branches hwalk => absurd hwalk (hbranches k hk branches)
  · exact fun branches hwalk => absurd hwalk (hbranches _ (by decide) branches)

/-- Two values that are going to be compiled to the same: one and the same value, schemas of which
the same is visible, or a schema and what filtering leaves of it. -/
inductive Twins (env : Environment) : Value → Value → Prop where
  | same (v : Value) : Twins env v v
  | visible {schema schema' : Fields} (named : Fields.textNamed schema = true)
      (named' : Fields.textNamed schema' = true)
      (visible : visibleFields env schema' = visibleFields env schema) :
      Twins env (.object schema) (.object schema')
  | filtered {v v' : Value} (filtered : env.context.visibility.filterSchema v = .ok v')
      (named : v.textNamed = true) (settled : Settled env v) : Twins env v v'

/-- A way to compile schemas inside another that does not tell twins apart. -/
def Blind (env : Environment) (inner : Inner) : Prop :=
  ∀ v v' branch, Twins env v v' → inner v' branch = inner v branch

variable {env : Environment} {inner : Inner} {refer : Refer} {top branch : Bool}

/-- A schema that declares properties is filtered as a whole. -/
theorem visibleFields_of_properties (hvis : env.context.visibility ≠ .all) {schema : Fields}
    (h : schema.has "properties" = true) : visibleFields env schema =
      (env.context.visibility.filterSchema (.object schema)) >>= Value.fields := by
  have hfilter : env.context.visibility.filter (.object schema) =
      env.context.visibility.filterSchema (.object schema) := by
    unfold Visibility.filter
    split
    · rename_i hall
      exact absurd hall hvis
    · rfl
  unfold visibleFields
  rw [if_pos h, hfilter]

/-! ## Branches -/

/-- Branches are walked over before filtering and afterwards, or cannot be. -/
theorem walk_filterBranches_paired {vis : Visibility} {v v' : Value}
    (h : vis.filterBranches v = .ok v') :
    Outcome.Paired (FilteredAll vis) v.walk v'.walk := by
  have hscalars : ∀ {names : List Value}, (∀ n ∈ names, ∃ s, n = .scalar s) →
      FilteredAll vis names names := by
    intro names hnames
    refine List.forall₂_same.mpr fun n hn => ?_
    obtain ⟨s, rfl⟩ := hnames n hn
    rfl
  cases v with
  | list branches =>
    obtain ⟨filtered, hfiltered, h⟩ := Outcome.bind_eq_ok.mp h
    cases h
    exact .ok (forall₂_of_filterAll hfiltered)
  | object fields =>
    cases h
    refine .ok (hscalars fun n hn => ?_)
    obtain ⟨f, -, rfl⟩ := List.mem_map.mp hn
    exact ⟨f.1, rfl⟩
  | scalar s =>
    cases h
    cases s with
    | text t =>
      refine .ok (hscalars fun n hn => ?_)
      obtain ⟨c, -, rfl⟩ := List.mem_map.mp hn
      exact ⟨_, rfl⟩
    | _ => exact .error

/-! ## Schemas that declare no properties -/

/-- A schema without properties, and what filtering leaves of it. -/
structure Undeclared (env : Environment) (schema schema' : Fields) : Prop where
  properties : schema.has "properties" = false
  ref : schema.has "$ref" = false
  filtered : env.context.visibility.filterFields schema = .ok schema'
  named : Fields.textNamed schema = true
  outlook : SameOutlook env schema schema'
  items : Settled env (schema.value "items")
  branches : ∀ k ∈ compositionKeywords, ∀ branches, (schema.value k).walk = .ok branches →
    ∀ b ∈ branches, Settled env b
  taken : ∀ branches, (schema.value "allOf").walk = .ok branches →
    ∀ fields : Fields, .object fields ∈ branches.tail → fields.has "$ref" = false →
    ∀ properties, fields.value "properties" = .object properties → ∀ f ∈ properties,
    env.context.visibility.shows f.2 = true → Settled env f.2

/-- The keywords that count for a schema and what filtering leaves of it. -/
def undeclaredKeywords : List String :=
  ["properties", "$ref", "items", "allOf", "oneOf", "anyOf", "discriminator",
   "unevaluatedProperties"]

namespace Undeclared

variable {schema schema' : Fields} (h : Undeclared env schema schema')
include h

/-- Keywords that hold no schemas are as they were. -/
theorem get? {k : String} (hk : k ∉ filteredKeywords) : schema'.get? k = schema.get? k :=
  get?_filterFields_of_keyword h.filtered hk

theorem value {k : String} (hk : k ∉ filteredKeywords) : schema'.value k = schema.value k :=
  value_filterFields hk h.filtered

/-- No keyword is lost, and none is added. -/
theorem has (k : String) : schema'.has k = schema.has k := has_filterFields h.filtered k

theorem value_properties : schema.value "properties" = .null :=
  Fields.value_eq_null (by simp [h.properties])

theorem value_properties' : schema'.value "properties" = .null :=
  Fields.value_eq_null (by simp [h.has, h.properties])

/-- Filtering the schema gives its counterpart. -/
theorem filterSchema :
    env.context.visibility.filterSchema (.object schema) = .ok (.object schema') := by
  refine (filterSchema_object h.ref).mpr ⟨_, rfl, .plain ?_ h.filtered⟩
  rw [h.value_properties]
  nofun

/-- Branches are walked over before and after filtering, or cannot be. -/
theorem walk {k : String} (hk : k ∈ compositionKeywords) :
    Outcome.Paired (FilteredAll env.context.visibility)
      (schema.value k).walk (schema'.value k).walk := by
  have hbranches : env.context.visibility.filterBranches (schema.value k) = .ok (schema'.value k) := by
    rcases get?_filterFields (k := k) h.filtered with ⟨hs, hf⟩ | ⟨v, v', hs, hf, hv⟩
    · rw [Fields.value, Fields.value, hs, hf]
      rfl
    · rw [Fields.value_of_get? hs, Fields.value_of_get? hf]
      simp only [compositionKeywords, List.mem_cons, List.not_mem_nil, or_false] at hk
      rcases hk with rfl | rfl | rfl <;> exact hv
  exact walk_filterBranches_paired hbranches

/-- Branches and what filtering leaves of them are twins, pair by pair. -/
theorem twins_branches {k : String} (hk : k ∈ compositionKeywords) {branches branches' : List Value}
    (hwalk : (schema.value k).walk = .ok branches)
    (hfiltered : FilteredAll env.context.visibility branches branches') :
    List.Forall₂ (Twins env) branches branches' := by
  refine (Outcome.forall₂_mem hfiltered).imp ?_
  rintro b b' ⟨hb, -, hfiltered⟩
  exact .filtered hfiltered
    (Value.textNamed_walk (Fields.textNamed_value h.named k) hwalk b hb) (h.branches k hk _ hwalk b hb)

/-- **A schema without properties of its own and its counterpart are twins.** -/
theorem twins : Twins env (.object schema) (.object schema') := by
  refine .filtered h.filterSchema h.named (.undeclared (fun schema'' hfiltered => ?_) h.items
    h.branches h.taken)
  rw [h.filtered] at hfiltered
  cases hfiltered
  exact h.outlook

/-- What counts is what stands under a few keywords. -/
theorem congr {changed changed' : Fields}
    (hfiltered : env.context.visibility.filterFields changed = .ok changed')
    (hnamed : Fields.textNamed changed = true)
    (hsame : ∀ k ∈ undeclaredKeywords, changed.get? k = schema.get? k)
    (hsame' : ∀ k ∈ undeclaredKeywords, changed'.get? k = schema'.get? k) :
    Undeclared env changed changed' := by
  have hvalue : ∀ k ∈ undeclaredKeywords, changed.value k = schema.value k := fun k hk => by
    rw [Fields.value, hsame k hk]
    rfl
  have hvalue' : ∀ k ∈ undeclaredKeywords, changed'.value k = schema'.value k := fun k hk => by
    rw [Fields.value, hsame' k hk]
    rfl
  have hevaluated : ∀ {s t : Fields}, (∀ k ∈ undeclaredKeywords, t.value k = s.value k) →
      evaluatedNames env t = evaluatedNames env s := by
    intro s t hst
    simp only [evaluatedNames, branchNames, List.mapM_cons, List.mapM_nil,
      hst "properties" (by decide), hst "allOf" (by decide), hst "oneOf" (by decide),
      hst "anyOf" (by decide)]
  have hcompositions : ∀ k ∈ compositionKeywords, k ∈ undeclaredKeywords := by decide
  have hkinds : ∀ kind : UnionKind, kind.keyword ∈ undeclaredKeywords := by
    rintro (_ | _) <;> decide
  refine
    { properties := ?_
      ref := ?_
      filtered := hfiltered
      named := hnamed
      outlook := ⟨?_, ?_, ?_⟩
      items := ?_
      branches := ?_
      taken := ?_ }
  · rw [Fields.has, hsame _ (by decide)]
    exact h.properties
  · rw [Fields.has, hsame _ (by decide)]
    exact h.ref
  · rw [hvalue _ (by decide), hvalue' _ (by decide)]
    exact h.outlook.allOf
  · intro kind
    rw [hvalue _ (hkinds kind), hvalue' _ (hkinds kind), hvalue "discriminator" (by decide)]
    exact h.outlook.union
  · rw [hvalue "unevaluatedProperties" (by decide), hevaluated hvalue, hevaluated hvalue']
    exact h.outlook.evaluated
  · rw [hvalue _ (by decide)]
    exact h.items
  · intro k hk
    rw [hvalue _ (hcompositions k hk)]
    exact h.branches k hk
  · rw [hvalue _ (by decide)]
    exact h.taken

/-- The pair stays one if both sides are given the same keyword. -/
theorem put {k : String} (hk : k ∉ undeclaredKeywords) {v : Value} (hv : v.textNamed = true) :
    Undeclared env (schema.put (.text k) v) (schema'.put (.text k) v) := by
  have hne : ∀ n ∈ undeclaredKeywords, k ≠ n := by
    rintro n hn rfl
    exact hk hn
  have hfiltered : k ∉ filteredKeywords := by
    intro hmem
    have hsub : ∀ n ∈ filteredKeywords, n ∈ undeclaredKeywords := by decide
    exact hk (hsub k hmem)
  refine h.congr (filterFields_put_of_keyword h.filtered hfiltered v)
    (Fields.textNamed_put h.named _ hv) (fun n hn => ?_) fun n hn => ?_
  · rw [Fields.get?_put, if_neg (hne n hn)]
  · rw [Fields.get?_put, if_neg (hne n hn)]

theorem erase {k : String} (hk : k ∉ undeclaredKeywords) :
    Undeclared env (schema.erase k) (schema'.erase k) := by
  have hne : ∀ n ∈ undeclaredKeywords, k ≠ n := by
    rintro n hn rfl
    exact hk hn
  refine h.congr (filterFields_erase h.filtered k) (Fields.textNamed_erase h.named _)
    (fun n hn => ?_) fun n hn => ?_
  · rw [Fields.get?_erase, if_neg (hne n hn)]
  · rw [Fields.get?_erase, if_neg (hne n hn)]

/-! ### Single forms -/

/-- A string is compiled from keywords that filtering leaves alone. -/
theorem string_eq : compileString env schema' = compileString env schema := by
  simp (disch := decide) only [compileString, formatBase, stringConstraints, h.value]

theorem number_eq (isInteger : Bool) :
    compileNumber env schema' isInteger = compileNumber env schema isInteger := by
  simp (disch := decide) only [compileNumber, h.value]

theorem items_twins : Twins env (schema.value "items") (schema'.value "items") := by
  rcases get?_filterFields (k := "items") h.filtered with ⟨hs, hf⟩ | ⟨v, v', hs, hf, hv⟩
  · rw [Fields.value, Fields.value, hs, hf]
    exact .same _
  · have hnamed := Fields.textNamed_value h.named "items"
    have hitems := h.items
    rw [Fields.value_of_get? hs] at hnamed hitems ⊢
    rw [Fields.value_of_get? hf]
    exact .filtered hv hnamed hitems

/-- Items are an object on both sides or on none. -/
theorem isObject_items :
    (schema'.value "items").isObject = (schema.value "items").isObject ∧
      ((schema.value "items").isObject = false → schema'.value "items" = schema.value "items") := by
  rcases get?_filterFields (k := "items") h.filtered with ⟨hs, hf⟩ | ⟨v, v', hs, hf, hv⟩
  · rw [Fields.value, Fields.value, hs, hf]
    exact ⟨rfl, fun _ => rfl⟩
  · rw [Fields.value_of_get? hs, Fields.value_of_get? hf]
    rcases filterSchema_cases hv with rfl | ⟨fields, after, rfl, rfl, -, -⟩
    · exact ⟨rfl, fun _ => rfl⟩
    · exact ⟨rfl, fun hleaf => Bool.noConfusion hleaf⟩

/-- Without properties of its own an object is compiled to the same, as the schemas inside are
twins. -/
theorem object_eq : compileObject env inner schema' = compileObject env inner schema := by
  simp (disch := decide) only [compileObject, compileShape, requiredNames, additional, propertyCount,
    undeclaredRequired, patternProperties, propertyNames, dependencies, dependentRequired, ifThenElse,
    objectConstructor, h.value, h.value_properties, h.value_properties']

theorem checkUnevaluated_eq (e : Expression) :
    checkUnevaluated env inner schema' e = checkUnevaluated env inner schema e := by
  unfold checkUnevaluated
  rw [h.value (by decide)]
  split
  · rename_i hrule
    rw [h.outlook.evaluated (Or.inl hrule)]
  · rename_i rule hrule
    rw [h.outlook.evaluated (Or.inr (by rw [hrule]; rfl))]
  · rfl

theorem objectForm_eq (constrained : Bool) :
    compileObjectForm env inner schema' constrained =
      compileObjectForm env inner schema constrained := by
  simp (disch := decide) only [compileObjectForm, h.object_eq, h.checkUnevaluated_eq, h.value]

theorem textNamed_nonNullTypes : ∀ t ∈ nonNullTypes schema, t.textNamed = true := by
  intro t ht
  have hnamed := Fields.textNamed_value h.named "type"
  unfold nonNullTypes at ht
  split at ht
  · rename_i types htypes
    rw [htypes] at hnamed
    exact Value.textNamedAll_iff.mp hnamed t (List.mem_of_mem_filter ht)
  · obtain rfl := List.mem_singleton.mp ht
    rfl
  · cases ht

variable (hinner : Blind env inner)
include hinner

theorem array_eq : compileArray env inner schema' = compileArray env inner schema := by
  obtain ⟨hobject, hsame⟩ := h.isObject_items
  have hitem := fun branch => hinner _ _ branch h.items_twins
  have htuple : compileTuple inner schema' = compileTuple inner schema := by
    cases hitems : (schema.value "items").isObject with
    | true =>
      simp (disch := decide) only [compileTuple, h.value, hobject, hitems, if_true, hitem]
    | false =>
      simp (disch := decide) only [compileTuple, h.value, hsame hitems]
  have hlist : compileList inner schema' = compileList inner schema := by
    simp (disch := decide) only [compileList, h.value, hobject, hitem]
  simp (disch := decide) only [compileArray, compileContains, h.value, htuple, hlist,
    h.get? (k := "minContains")]

/-- So is a schema of several types, type by type. -/
theorem severalTypes_eq {types : List Value} (htypes : ∀ t ∈ types, t.textNamed = true) :
    compileSeveralTypes inner schema' types = compileSeveralTypes inner schema types := by
  have hmembers : types.mapM (fun type =>
        inner (.object ((schema'.erase "nullable").put (.text "type") type)) true) =
      types.mapM fun type =>
        inner (.object ((schema.erase "nullable").put (.text "type") type)) true := by
    refine mapM_congr ?_
    rw [List.forall₂_same]
    exact fun t ht => hinner _ _ _ ((h.erase (by decide)).put (by decide) (htypes t ht)).twins
  rw [compileSeveralTypes, hmembers]
  rfl

theorem negation_eq (excluded : Value) :
    compileNegation inner schema' excluded = compileNegation inner schema excluded := by
  have hrest := hinner _ _ true ((h.erase (k := "not") (by decide)).erase (k := "nullable")
    (by decide)).twins
  simp only [compileNegation, h.has, hrest]

end Undeclared

/-! ### Forms -/

/-- The forms of a schema before filtering and afterwards. -/
inductive Forms (env : Environment) (schema schema' : Fields) : Form → Form → Prop where
  | single {form : Form} (single : form.isComposition = false) : Forms env schema schema' form form
  | allOf {branches branches' : List Value}
      (walked : (schema.value "allOf").walk = .ok branches)
      (walked' : (schema'.value "allOf").walk = .ok branches')
      (filtered : FilteredAll env.context.visibility branches branches') :
      Forms env schema schema' (.allOf branches) (.allOf branches')
  | union {kind : UnionKind} {branches branches' : List Value} {discriminator : Fields}
      (walked : (schema.value kind.keyword).walk = .ok branches)
      (walked' : (schema'.value kind.keyword).walk = .ok branches')
      (filtered : FilteredAll env.context.visibility branches branches')
      (told : (schema.value "discriminator").fieldsIfSet = .ok discriminator) :
      Forms env schema schema'
        (.union kind branches (discriminator.value "propertyName") (discriminator.value "mapping"))
        (.union kind branches' (discriminator.value "propertyName") (discriminator.value "mapping"))

namespace Undeclared

variable {schema schema' : Fields} (h : Undeclared env schema schema')
include h

theorem get?_cases (k : String) :
    (schema.get? k = none ∧ schema'.get? k = none) ∨
      (schema.get? k = some (schema.value k) ∧ schema'.get? k = some (schema'.value k)) := by
  cases hhas : schema.has k with
  | false =>
    exact Or.inl ⟨Fields.get?_eq_none (by simp [hhas]), Fields.get?_eq_none (by simp [h.has, hhas])⟩
  | true =>
    exact Or.inr ⟨Fields.get?_of_has hhas, Fields.get?_of_has ((h.has k).trans hhas)⟩

theorem formOfUnion_paired (kind : UnionKind) :
    Outcome.Paired (Forms env schema schema') (formOfUnion schema kind (schema.value kind.keyword))
      (formOfUnion schema' kind (schema'.value kind.keyword)) := by
  have hkind : kind.keyword ∈ compositionKeywords := by cases kind <;> decide
  have hpaired := h.walk hkind
  unfold formOfUnion
  rw [h.value (k := "discriminator") (by decide)]
  generalize hwalk : (schema.value kind.keyword).walk = walked at hpaired ⊢
  generalize hwalk' : (schema'.value kind.keyword).walk = walked' at hpaired ⊢
  cases hpaired with
  | error => exact .error
  | ok hfiltered =>
    show Outcome.Paired _ ((schema.value "discriminator").fieldsIfSet >>= _)
      ((schema.value "discriminator").fieldsIfSet >>= _)
    refine Outcome.paired_bind fun discriminator hdiscriminator => ?_
    exact .ok (.union hwalk hwalk' hfiltered hdiscriminator)

/-- **A schema has the same form before filtering and afterwards.** -/
theorem classify_paired :
    Outcome.Paired (Forms env schema schema') (classify schema) (classify schema') := by
  have htypes : nonNullTypes schema' = nonNullTypes schema := by
    rw [nonNullTypes, h.value (by decide)]
    rfl
  have href : schema.get? "$ref" = none := Fields.get?_eq_none (by simp [h.ref])
  unfold classify
  rw [htypes, h.get? (k := "$ref") (by decide), h.get? (k := "const") (by decide),
    h.get? (k := "enum") (by decide), h.get? (k := "not") (by decide), href]
  split
  · exact .ok (.single rfl)
  dsimp only
  split
  · exact .ok (.single rfl)
  split
  · rename_i values _
    cases values.walk with
    | ok items => exact .ok (.single rfl)
    | error f => exact .error
  rcases h.get?_cases "allOf" with ⟨hs, hf⟩ | ⟨hs, hf⟩
  rotate_left
  · rw [hs, hf]
    have hpaired := h.walk (k := "allOf") (by decide)
    generalize hwalk : (schema.value "allOf").walk = walked at hpaired
    generalize hwalk' : (schema'.value "allOf").walk = walked' at hpaired
    dsimp only
    rw [hwalk, hwalk']
    cases hpaired with
    | ok hfiltered => exact .ok (.allOf hwalk hwalk' hfiltered)
    | error => exact .error
  rw [hs, hf]
  dsimp only
  rcases h.get?_cases "oneOf" with ⟨hs, hf⟩ | ⟨hs, hf⟩
  rotate_left
  · rw [hs, hf]
    exact h.formOfUnion_paired .oneOf
  rw [hs, hf]
  dsimp only
  rcases h.get?_cases "anyOf" with ⟨hs, hf⟩ | ⟨hs, hf⟩
  rotate_left
  · rw [hs, hf]
    exact h.formOfUnion_paired .anyOf
  rw [hs, hf]
  dsimp only
  split
  · exact .ok (.single rfl)
  · have hform : formOfType schema' = formOfType schema := by
      have hobject : objectKeywords.any schema'.has = objectKeywords.any schema.has :=
        congrArg objectKeywords.any (funext h.has)
      rw [formOfType, primaryType, htypes, h.has, hobject]
      rfl
    rw [hform]
    refine .ok (.single ?_)
    rcases formOfType_cases schema with hf | ⟨_, hf⟩ | hf | hf | ⟨_, hf⟩ | hf <;> rw [hf] <;> rfl

/-- **Whatever its form, a schema without properties compiles to the same as its counterpart.** -/
theorem form_eq (hinner : Blind env inner) {form : Form} (hform : classify schema = .ok form) :
    compileForm env refer inner schema' top form = compileForm env refer inner schema top form := by
  unfold compileForm
  split
  · rw [eq_of_classify_severalTypes hform]
    exact h.severalTypes_eq hinner h.textNamed_nonNullTypes
  · rfl
  · rfl
  · rfl
  · exact h.negation_eq hinner _
  · exact h.string_eq
  · rw [h.number_eq]
  · rw [h.value (by decide)]
  · exact h.array_eq hinner
  · exact h.objectForm_eq _
  · rw [h.value (by decide)]

end Undeclared

end SchemaForge.Compile
