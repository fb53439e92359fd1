import SchemaForge.Compile.Basic
import SchemaForge.Proofs.Compile.Scope
import SchemaForge.Proofs.Schema.Form

/-!
# What is visible of a schema

Apart from the required entries, filtering leaves every field of a schema in its place. It only goes
into the values that hold properties, items or branches, so a schema is a composition before
filtering exactly if it is one afterwards.
-/

namespace SchemaForge.Compile

open Reference Schema

variable {env : Environment} {schema fields : Fields} {k : String} {v v' : Value}

theorem visibleFields_congr {env' : Environment}
    (h : env.context.visibility = env'.context.visibility) :
    visibleFields env' schema = visibleFields env schema := by
  simp only [visibleFields, h]

/-! ## Fields -/

theorem get?_adjustRequired {before after adjusted : Fields}
    (h : Visibility.adjustRequired before after = .ok adjusted) (hk : k ≠ "required") :
    adjusted.get? k = after.get? k := by
  unfold Visibility.adjustRequired at h
  split at h
  · obtain ⟨left, -, h⟩ := Outcome.bind_eq_ok.mp h
    split at h
    · cases h
      rw [Fields.get?_erase, if_neg hk.symm]
    · cases h
      rw [Fields.get?_put, if_neg hk.symm]
  · cases h
    rfl

theorem visibleFields_cases (h : visibleFields env schema = .ok fields) :
    fields = schema ∨ ∃ filtered, env.context.visibility.filterFields schema = .ok filtered ∧
      Visibility.adjustRequired schema filtered = .ok fields := by
  have hfilter : ∀ {filtered : Value},
      env.context.visibility.filterSchema (.object schema) = .ok filtered →
      filtered.fields = .ok fields →
      fields = schema ∨ ∃ filtered, env.context.visibility.filterFields schema = .ok filtered ∧
        Visibility.adjustRequired schema filtered = .ok fields := by
    intro filtered hf hfields
    rw [Visibility.filterSchema] at hf
    split at hf
    · cases hf
      cases hfields
      exact Or.inl rfl
    · obtain ⟨filtered, hff, hf⟩ := Outcome.bind_eq_ok.mp hf
      obtain ⟨adjusted, hadjusted, hf⟩ := Outcome.bind_eq_ok.mp hf
      cases hf
      cases hfields
      exact Or.inr ⟨filtered, hff, hadjusted⟩
  unfold visibleFields at h
  split at h
  · obtain ⟨filtered, hf, h⟩ := Outcome.bind_eq_ok.mp h
    unfold Visibility.filter at hf
    split at hf
    · cases hf
      cases h
      exact Or.inl rfl
    · exact hfilter hf h
  · cases h
    exact Or.inl rfl

/-- **What is visible has the fields of the schema, with their values filtered or as they were.** -/
theorem get?_visibleFields (h : visibleFields env schema = .ok fields) (hk : k ≠ "required") :
    (schema.get? k = none ∧ fields.get? k = none) ∨
      ∃ v v', schema.get? k = some v ∧ fields.get? k = some v' ∧
        (v' = v ∨ filterValue env.context.visibility (.text k) v = .ok v') := by
  rcases visibleFields_cases h with rfl | ⟨filtered, hfiltered, hadjusted⟩
  · cases hv : fields.get? k with
    | none => exact Or.inl ⟨rfl, rfl⟩
    | some v => exact Or.inr ⟨v, v, rfl, rfl, Or.inl rfl⟩
  · rw [get?_adjustRequired hadjusted hk]
    rcases get?_filterFields hfiltered with hnone | ⟨v, v', hv, hv', hvalue⟩
    · exact Or.inl hnone
    · exact Or.inr ⟨v, v', hv, hv', Or.inr hvalue⟩

theorem has_visibleFields (h : visibleFields env schema = .ok fields) (hk : k ≠ "required") :
    fields.has k = schema.has k := by
  unfold Fields.has
  rcases get?_visibleFields h hk with ⟨hs, hf⟩ | ⟨v, v', hs, hf, -⟩
  · rw [hs, hf]
  · rw [hs, hf]
    rfl

theorem get?_visibleFields_of_keyword (h : visibleFields env schema = .ok fields)
    (hk : k ≠ "required") (hfiltered : k ∉ filteredKeywords) : fields.get? k = schema.get? k := by
  rcases get?_visibleFields h hk with ⟨hs, hf⟩ | ⟨v, v', hs, hf, hv⟩
  · rw [hs, hf]
  · rw [filterValue_of_keyword hfiltered, Except.ok.injEq] at hv
    rw [hs, hf, hv.elim id Eq.symm]

/-! ## Compositions -/

theorem length_filterAll {vis : Visibility} : ∀ {branches filtered : List Value},
    vis.filterAll branches = .ok filtered → filtered.length = branches.length
  | [], _, h => by
    cases h
    rfl
  | branch :: branches, filtered, h => by
    rw [Visibility.filterAll] at h
    obtain ⟨b, -, h⟩ := Outcome.bind_eq_ok.mp h
    obtain ⟨bs, hbs, h⟩ := Outcome.bind_eq_ok.mp h
    cases h
    rw [List.length_cons, List.length_cons, length_filterAll hbs]

/-- Filtered branches can be walked over if the branches can, and they are as many. -/
theorem walk_filterBranches {vis : Visibility} (h : vis.filterBranches v = .ok v')
    {items : List Value} (hw : v.walk = .ok items) :
    ∃ items', v'.walk = .ok items' ∧ items'.length = items.length := by
  cases v with
  | list branches =>
    rw [Visibility.filterBranches] at h
    obtain ⟨filtered, hfiltered, h⟩ := Outcome.bind_eq_ok.mp h
    cases h
    cases hw
    exact ⟨filtered, rfl, length_filterAll hfiltered⟩
  | scalar s =>
    cases h
    exact ⟨items, hw, rfl⟩
  | object fs =>
    cases h
    exact ⟨items, hw, rfl⟩

theorem walk_visibleFields (h : visibleFields env schema = .ok fields)
    (hk : k ∈ ["allOf", "oneOf", "anyOf"]) {items : List Value} (hv : schema.get? k = some v)
    (hw : v.walk = .ok items) :
    ∃ v' items', fields.get? k = some v' ∧ v'.walk = .ok items' ∧
      items'.length = items.length := by
  have hrequired : k ≠ "required" := by
    rintro rfl
    exact absurd hk (by decide)
  rcases get?_visibleFields h hrequired with ⟨hs, -⟩ | ⟨w, v', hs, hf, hfiltered⟩
  · rw [hs] at hv
    cases hv
  · obtain rfl : w = v := by simpa [hs] using hv
    rcases hfiltered with rfl | hfiltered
    · exact ⟨v', items, hf, hw, rfl⟩
    · have hbranches : env.context.visibility.filterBranches w = .ok v' := by
        simp only [List.mem_cons, List.not_mem_nil, or_false] at hk
        rcases hk with rfl | rfl | rfl <;> exact hfiltered
      obtain ⟨items', hw', hlength⟩ := walk_filterBranches hbranches hw
      exact ⟨v', items', hf, hw', hlength⟩

theorem get?_visibleFields_none (h : visibleFields env schema = .ok fields) (hk : k ≠ "required")
    (hv : schema.get? k = none) : fields.get? k = none := by
  rcases get?_visibleFields h hk with ⟨-, hf⟩ | ⟨v, v', hs, -, -⟩
  · exact hf
  · rw [hs] at hv
    cases hv

/-- Two compositions are one but for their branches, and these are as many. -/
inductive SameComposition : Form → Form → Prop where
  | allOf {branches branches' : List Value} (length : branches'.length = branches.length) :
      SameComposition (.allOf branches) (.allOf branches')
  | union {kind : UnionKind} {branches branches' : List Value} {discriminator mapping : Value}
      (length : branches'.length = branches.length) :
      SameComposition (.union kind branches discriminator mapping)
        (.union kind branches' discriminator mapping)

theorem value_visibleFields (h : visibleFields env schema = .ok fields) (hk : k ≠ "required")
    (hfiltered : k ∉ filteredKeywords) : fields.value k = schema.value k := by
  rw [Fields.value, get?_visibleFields_of_keyword h hk hfiltered]
  rfl

theorem nonNullTypes_visibleFields (h : visibleFields env schema = .ok fields) :
    nonNullTypes fields = nonNullTypes schema := by
  rw [nonNullTypes, value_visibleFields h (by decide) (by decide)]
  rfl

/-- Filtering leaves the types, and what makes a schema a reference, a constant or an enum. -/
theorem unsettled_visibleFields (h : visibleFields env schema = .ok fields) (hs : Unsettled schema) :
    Unsettled fields :=
  ⟨nonNullTypes_visibleFields h ▸ hs.single, get?_visibleFields_none h (by decide) hs.ref,
    get?_visibleFields_none h (by decide) hs.const, get?_visibleFields_none h (by decide) hs.enum⟩

/-- A union has as many branches, and the same discriminator. -/
theorem formOfUnion_visibleFields (h : visibleFields env schema = .ok fields) (kind : UnionKind)
    {form : Form} (hv : schema.get? kind.keyword = some v)
    (hform : formOfUnion schema kind v = .ok form) :
    ∃ v' form', fields.get? kind.keyword = some v' ∧ formOfUnion fields kind v' = .ok form' ∧
      SameComposition form form' := by
  obtain ⟨branches, hwalk, hform⟩ := Outcome.bind_eq_ok.mp hform
  obtain ⟨discriminator, htold, hform⟩ := Outcome.bind_eq_ok.mp hform
  cases hform
  have hkind : kind.keyword ∈ ["allOf", "oneOf", "anyOf"] := by cases kind <;> decide
  obtain ⟨v', branches', hv', hwalk', hlength⟩ := walk_visibleFields h hkind hv hwalk
  refine ⟨v', .union kind branches' (discriminator.value "propertyName")
    (discriminator.value "mapping"), hv', ?_, .union hlength⟩
  rw [formOfUnion, hwalk', value_visibleFields h (by decide) (by decide), htold]
  rfl

theorem compositionOf_visibleFields (h : visibleFields env schema = .ok fields) {form : Form}
    (hcomposition : CompositionOf schema form) :
    ∃ form', CompositionOf fields form' ∧ SameComposition form form' := by
  cases hcomposition with
  | allOf held walked =>
    obtain ⟨v', items', hv', hwalk', hlength⟩ := walk_visibleFields h (by decide) held walked
    exact ⟨_, .allOf hv' hwalk', .allOf hlength⟩
  | oneOf allOf held formed =>
    obtain ⟨v', form', hv', hform', hsame⟩ := formOfUnion_visibleFields h .oneOf held formed
    exact ⟨form', .oneOf (get?_visibleFields_none h (by decide) allOf) hv' hform', hsame⟩
  | anyOf allOf oneOf held formed =>
    obtain ⟨v', form', hv', hform', hsame⟩ := formOfUnion_visibleFields h .anyOf held formed
    exact ⟨form', .anyOf (get?_visibleFields_none h (by decide) allOf)
      (get?_visibleFields_none h (by decide) oneOf) hv' hform', hsame⟩

/-- **A composition is still the same if only a part of it is visible.** -/
theorem classify_visibleFields (h : visibleFields env schema = .ok fields) {form : Form}
    (hform : classify schema = .ok form) (hcomposed : form.isComposition = true) :
    ∃ form', classify fields = .ok form' ∧ SameComposition form form' := by
  obtain ⟨hunsettled, hcomposition⟩ := compositionOf_of_classify hform hcomposed
  obtain ⟨form', hcomposition', hsame⟩ := compositionOf_visibleFields h hcomposition
  exact ⟨form', (unsettled_visibleFields h hunsettled).classify_eq hcomposition', hsame⟩

theorem isComposition_visibleFields (h : visibleFields env schema = .ok fields) {form : Form}
    (hform : classify schema = .ok form) (hcomposed : form.isComposition = true) :
    ∃ form', classify fields = .ok form' ∧ form'.isComposition = true := by
  obtain ⟨form', hform', hsame⟩ := classify_visibleFields h hform hcomposed
  cases hsame with
  | allOf => exact ⟨_, hform', rfl⟩
  | union => exact ⟨_, hform', rfl⟩

/-- Everything is visible where nothing is hidden, and in a schema without properties of its own. -/
theorem visibleFields_eq_self
    (h : env.context.visibility = .all ∨ schema.has "properties" = false) :
    visibleFields env schema = .ok schema := by
  unfold visibleFields
  rcases h with hall | hnone
  · rw [hall]
    split <;> rfl
  · rw [if_neg (by simp [hnone])]
    rfl

end SchemaForge.Compile
