import SchemaForge.Proofs.Compile.Parts
import SchemaForge.Proofs.Compile.Visible
import SchemaForge.Proofs.Document.Distinct
import SchemaForge.Proofs.Document.TextNames

/-!
# Filtering schemas

Filtering goes through the fields of a schema one by one. What was filtered once is left alone by a
second time, and filtering commutes with setting and removing fields that it does not go into. So a
branch may lose properties before it is filtered or afterwards: what is visible of it is the same.
-/

namespace SchemaForge.Visibility

open Reference

variable {vis : Visibility} {fields filtered : Fields} {v v' : Value} {k : String}

/-! ## Field by field -/

/-- Fields keep their names and places; each value is filtered by its own name. -/
theorem forall₂_of_filterFields : ∀ {fields filtered : Fields},
    vis.filterFields fields = .ok filtered →
    List.Forall₂ (fun f f' => f.1 = f'.1 ∧ filterValue vis f.1 f.2 = .ok f'.2) fields filtered
  | [], _, h => by
    cases h
    exact .nil
  | (name, value) :: fields, _, h => by
    rw [filterFields_cons] at h
    obtain ⟨value', hvalue, h⟩ := Outcome.bind_eq_ok.mp h
    obtain ⟨filtered, hfields, h⟩ := Outcome.bind_eq_ok.mp h
    cases h
    exact .cons ⟨rfl, hvalue⟩ (forall₂_of_filterFields hfields)

theorem filterFields_of_forall₂
    (h : List.Forall₂ (fun f f' => f.1 = f'.1 ∧ filterValue vis f.1 f.2 = .ok f'.2) fields filtered) :
    vis.filterFields fields = .ok filtered := by
  induction h with
  | nil => rfl
  | @cons f f' fields filtered hf _ ih =>
    obtain ⟨name, value⟩ := f
    obtain ⟨name', value'⟩ := f'
    obtain ⟨rfl, hvalue⟩ := hf
    dsimp only at hvalue
    rw [filterFields_cons, hvalue, ih]
    rfl

/-- Of properties only the visible ones are left, in their order. -/
theorem forall₂_of_filterVisible : ∀ {fields kept : Fields}, vis.filterVisible fields = .ok kept →
    List.Forall₂ (fun f f' => f.1 = f'.1 ∧ vis.filterSchema f.2 = .ok f'.2)
      (fields.filter fun f => vis.shows f.2) kept
  | [], _, h => by
    cases h
    exact .nil
  | (name, definition) :: fields, kept, h => by
    rw [filterVisible] at h
    split at h
    · rename_i hshown
      obtain ⟨definition', hd, h⟩ := Outcome.bind_eq_ok.mp h
      obtain ⟨kept', hkept, h⟩ := Outcome.bind_eq_ok.mp h
      cases h
      rw [List.filter_cons, if_pos hshown]
      exact .cons ⟨rfl, hd⟩ (forall₂_of_filterVisible hkept)
    · rename_i hhidden
      rw [List.filter_cons, if_neg hhidden]
      exact forall₂_of_filterVisible h

theorem filterVisible_of_forall₂ : ∀ {fields kept : Fields},
    List.Forall₂ (fun f f' => f.1 = f'.1 ∧ vis.filterSchema f.2 = .ok f'.2)
      (fields.filter fun f => vis.shows f.2) kept → vis.filterVisible fields = .ok kept
  | [], _, h => by
    cases h
    rfl
  | (name, definition) :: fields, kept, h => by
    rw [filterVisible]
    rw [List.filter_cons] at h
    split
    · rename_i hshown
      rw [if_pos hshown] at h
      cases h with
      | @cons _ f' _ kept hf hrest =>
        obtain ⟨name', definition'⟩ := f'
        obtain ⟨rfl, hd⟩ := hf
        dsimp only at hd
        rw [hd, filterVisible_of_forall₂ hrest]
        rfl
    · rename_i hhidden
      rw [if_neg hhidden] at h
      exact filterVisible_of_forall₂ h

/-- Schemas and what filtering leaves of them, one by one. -/
abbrev FilteredAll (vis : Visibility) : List Value → List Value → Prop :=
  List.Forall₂ fun v v' => vis.filterSchema v = .ok v'

theorem forall₂_of_filterAll : ∀ {vs filtered : List Value}, vis.filterAll vs = .ok filtered →
    FilteredAll vis vs filtered
  | [], _, h => by
    cases h
    exact .nil
  | v :: vs, _, h => by
    rw [filterAll] at h
    obtain ⟨v', hv, h⟩ := Outcome.bind_eq_ok.mp h
    obtain ⟨filtered, hvs, h⟩ := Outcome.bind_eq_ok.mp h
    cases h
    exact .cons hv (forall₂_of_filterAll hvs)

/-! ## Setting and removing fields -/

/-- Filtering goes through a field that is put, if the value is filtered as that name asks. -/
theorem filterFields_put (h : vis.filterFields fields = .ok filtered)
    (hv : filterValue vis (.text k) v = .ok v') :
    vis.filterFields (fields.put (.text k) v) = .ok (filtered.put (.text k) v') := by
  refine filterFields_of_forall₂ ?_
  have hall := forall₂_of_filterFields h
  clear h
  induction hall with
  | nil => exact .cons ⟨rfl, hv⟩ .nil
  | @cons f f' fields filtered hf hall ih =>
    rw [Fields.put_cons, Fields.put_cons, ← hf.1]
    by_cases hname : (f.1 == .text k) = true
    · rw [if_pos hname, if_pos hname]
      refine .cons ⟨rfl, ?_⟩ hall
      rw [eq_of_beq hname]
      exact hv
    · rw [if_neg hname, if_neg hname]
      exact .cons hf ih

theorem filterFields_erase (h : vis.filterFields fields = .ok filtered) (k : String) :
    vis.filterFields (fields.erase k) = .ok (filtered.erase k) := by
  refine filterFields_of_forall₂ ?_
  have hall := forall₂_of_filterFields h
  clear h
  induction hall with
  | nil => exact .nil
  | @cons f f' fields filtered hf hall ih =>
    rw [Fields.erase_cons, Fields.erase_cons, ← hf.1]
    split
    · exact ih
    · exact .cons hf ih

/-- A field that filtering does not go into is set before or afterwards. -/
theorem filterFields_put_of_keyword (h : vis.filterFields fields = .ok filtered)
    (hk : k ∉ filteredKeywords) (v : Value) :
    vis.filterFields (fields.put (.text k) v) = .ok (filtered.put (.text k) v) :=
  filterFields_put h (filterValue_of_keyword hk)

/-- No field is lost. -/
theorem has_filterFields (h : vis.filterFields fields = .ok filtered) (k : String) :
    filtered.has k = fields.has k := by
  unfold Fields.has
  rcases get?_filterFields (k := k) h with ⟨hs, hf⟩ | ⟨v, v', hs, hf, -⟩
  · rw [hs, hf]
  · rw [hs, hf]
    rfl

/-- Keywords that hold no schemas are left alone. -/
theorem get?_filterFields_of_keyword (h : vis.filterFields fields = .ok filtered)
    (hk : k ∉ filteredKeywords) : filtered.get? k = fields.get? k := by
  rcases get?_filterFields (k := k) h with ⟨hs, hf⟩ | ⟨v, v', hs, hf, hv⟩
  · rw [hs, hf]
  · rw [filterValue_of_keyword hk] at hv
    cases hv
    rw [hs, hf]

/-! ## Required entries -/

/-- Whether a required entry stays: its property was kept or never declared. -/
def remains (properties kept : Fields) : Value → Bool
  | .scalar name => kept.hasName name || !properties.hasName name
  | _ => false

/-- The fields with other required entries, and without any if none is left. -/
def withRequired (fields : Fields) (left : List Value) : Fields :=
  if left.isEmpty then fields.erase "required" else fields.put (.text "required") (.list left)

variable {properties kept : Fields} {entries left : List Value} {required : Value}

/-- Where nothing was hidden every name remains. -/
theorem remains_self (entry : Value) :
    remains properties properties entry = true ↔ ∃ name, entry = .scalar name := by
  cases entry <;> simp [remains]

theorem filter_remains_self (h : ∀ entry ∈ entries, ∃ name, entry = .scalar name) :
    entries.filter (remains properties properties) = entries :=
  List.filter_eq_self.mpr fun entry hentry => (remains_self entry).mpr (h entry hentry)

/-- **What is left of the required entries**: the names that were not declared or are still visible.
Other entries than names are faults. -/
theorem requiredLeft_eq_ok : requiredLeft properties kept required = .ok left ↔
    ∃ entries, required.walkIfSet = .ok entries ∧
      (∀ entry ∈ entries, ∃ name, entry = .scalar name) ∧
      left = entries.filter (remains properties kept) := by
  have hstays : ∀ entry, (∃ b, staysRequired properties kept entry = .ok b) ↔
      ∃ name, entry = .scalar name := by
    intro entry
    cases entry <;> simp [staysRequired, Value.asName, Outcome.bind_eq_ok, pure, Except.pure]
  have haccepts : Outcome.accepts (staysRequired properties kept) = remains properties kept := by
    funext entry
    cases entry <;> rfl
  unfold requiredLeft
  rw [Outcome.bind_eq_ok]
  simp only [Outcome.filterM_eq_ok, hstays, haccepts]

theorem withRequired_put (fields : Fields) (v : Value) (left : List Value) :
    withRequired (fields.put (.text "required") v) left = withRequired fields left := by
  unfold withRequired
  rw [Fields.put_put, Fields.erase_put]

theorem withRequired_erase (fields : Fields) (left : List Value) (h : left.isEmpty = true) :
    withRequired (fields.erase "required") left = withRequired fields left := by
  unfold withRequired
  rw [if_pos h, if_pos h]
  exact Fields.erase_of_not_has (by simp [Fields.has, Fields.get?_erase])

/-- Adjusting twice is adjusting to the second list, unless the entry was dropped before. -/
theorem withRequired_withRequired (fields : Fields) (left left' : List Value)
    (h : left.isEmpty = true → left'.isEmpty = true) :
    withRequired (withRequired fields left) left' = withRequired fields left' := by
  by_cases hleft : left.isEmpty = true
  · have hfirst : withRequired fields left = fields.erase "required" := by
      rw [withRequired, if_pos hleft]
    rw [hfirst, withRequired_erase _ _ (h hleft)]
  · have hfirst : withRequired fields left = fields.put (.text "required") (.list left) := by
      rw [withRequired, if_neg hleft]
    rw [hfirst, withRequired_put]

/-- Only the required entries are adjusted. -/
theorem get?_withRequired {k : String} (hk : k ≠ "required") (fields : Fields) (left : List Value) :
    (withRequired fields left).get? k = fields.get? k := by
  unfold withRequired
  split
  · rw [Fields.get?_erase, if_neg hk.symm]
  · rw [Fields.get?_put, if_neg hk.symm]

theorem value_withRequired {k : String} (hk : k ≠ "required") (fields : Fields) (left : List Value) :
    (withRequired fields left).value k = fields.value k := by
  rw [Fields.value, get?_withRequired hk]
  rfl

/-- Required entries that were set are found again. -/
theorem walkIfSet_withRequired (fields : Fields) (left : List Value) :
    ((withRequired fields left).value "required").walkIfSet = .ok left := by
  unfold withRequired
  split
  · rename_i hleft
    rw [Fields.value_erase_self, List.isEmpty_iff.mp hleft]
    rfl
  · rename_i hleft
    rw [Fields.value_put_self]
    simp [Value.walkIfSet, Value.isSet, hleft, Value.walk]

/-- Required entries hold no schemas, so filtering and adjusting can change places. -/
theorem filterFields_withRequired (h : vis.filterFields fields = .ok filtered) (left : List Value) :
    vis.filterFields (withRequired fields left) = .ok (withRequired filtered left) := by
  unfold withRequired
  split
  · exact filterFields_erase h _
  · exact filterFields_put_of_keyword h (by decide) _

/-- Required entries are adjusted where properties were declared, before and after. -/
theorem adjustRequired_of_object {before after : Fields}
    (hbefore : before.value "properties" = .object properties)
    (hafter : after.value "properties" = .object kept) {adjusted : Fields} :
    adjustRequired before after = .ok adjusted ↔ ∃ left,
      requiredLeft properties kept (before.value "required") = .ok left ∧
        adjusted = withRequired after left := by
  have hleft : ∀ left : List Value,
      (if left.isEmpty then Except.ok (after.erase "required")
        else .ok (after.put (.text "required") (.list left)) : Except Fault Fields) =
        .ok (withRequired after left) := by
    intro left
    rw [withRequired]
    split <;> rfl
  unfold adjustRequired
  simp only [hbefore, hafter, Outcome.bind_eq_ok, pure, Except.pure, hleft]
  simp only [Except.ok.injEq, eq_comm]

/-- Without declared properties nothing is adjusted. -/
theorem adjustRequired_of_not_object {before after : Fields}
    (h : ∀ properties, before.value "properties" ≠ .object properties) :
    adjustRequired before after = .ok after := by
  unfold adjustRequired
  split
  · rename_i hbefore _
    exact absurd hbefore (h _)
  · rfl

/-! ## Schema objects -/

/-- What filtering makes of the fields of a schema that is no reference. -/
inductive Filtered (vis : Visibility) (fields : Fields) : Fields → Prop where
  /-- Nothing is declared. -/
  | plain {filtered : Fields}
      (undeclared : ∀ properties, fields.value "properties" ≠ .object properties)
      (inside : vis.filterFields fields = .ok filtered) : Filtered vis fields filtered
  | declared {filtered properties kept : Fields} {entries : List Value}
      (inside : vis.filterFields fields = .ok filtered)
      (before : fields.value "properties" = .object properties)
      (after : filtered.value "properties" = .object kept)
      (visible : vis.filterVisible properties = .ok kept)
      (walked : (fields.value "required").walkIfSet = .ok entries)
      (names : ∀ entry ∈ entries, ∃ name, entry = .scalar name) :
      Filtered vis fields (withRequired filtered (entries.filter (remains properties kept)))

/-- What is left of the properties of a schema are properties. -/
theorem value_properties_filterFields (h : vis.filterFields fields = .ok filtered)
    (hp : fields.value "properties" = .object properties) :
    ∃ kept, filtered.value "properties" = .object kept ∧ vis.filterVisible properties = .ok kept := by
  rcases get?_filterFields (k := "properties") h with ⟨hs, hf⟩ | ⟨v, v', hs, hf, hv⟩
  · rw [Fields.value, hs] at hp
    cases hp
  · obtain rfl : v = .object properties := by rw [← hp, Fields.value_of_get? hs]
    obtain ⟨kept, hkept, h⟩ := Outcome.bind_eq_ok.mp hv
    cases h
    exact ⟨kept, Fields.value_of_get? hf, hkept⟩

theorem value_properties_of_not_object (h : vis.filterFields fields = .ok filtered)
    (hp : ∀ properties, fields.value "properties" ≠ .object properties) :
    filtered.value "properties" = fields.value "properties" := by
  rcases get?_filterFields (k := "properties") h with ⟨hs, hf⟩ | ⟨v, v', hs, hf, hv⟩
  · rw [Fields.value, Fields.value, hs, hf]
  · rw [Fields.value_of_get? hs] at hp ⊢
    rw [Fields.value_of_get? hf]
    cases v with
    | object fs => exact absurd rfl (hp fs)
    | scalar s =>
      cases hv
      rfl
    | list vs =>
      cases hv
      rfl

theorem filterSchema_of_not_ref (href : Fields.has fields "$ref" = false) :
    vis.filterSchema (.object fields) = do
      let filtered ← vis.filterFields fields
      return .object (← adjustRequired fields filtered) := by
  rw [filterSchema, href]
  rfl

/-- **Filtering a schema, as one relation between the fields before and afterwards.** -/
theorem filterSchema_object (href : Fields.has fields "$ref" = false) :
    vis.filterSchema (.object fields) = .ok v' ↔
      ∃ left, v' = .object left ∧ Filtered vis fields left := by
  rw [filterSchema_of_not_ref href, Outcome.bind_eq_ok]
  constructor
  · rintro ⟨filtered, hfiltered, h⟩
    obtain ⟨adjusted, hadjusted, h⟩ := Outcome.bind_eq_ok.mp h
    cases h
    refine ⟨adjusted, rfl, ?_⟩
    by_cases hp : ∃ properties, fields.value "properties" = .object properties
    · obtain ⟨properties, hp⟩ := hp
      obtain ⟨kept, hafter, hkept⟩ := value_properties_filterFields hfiltered hp
      obtain ⟨left, hleft, rfl⟩ := (adjustRequired_of_object hp hafter).mp hadjusted
      obtain ⟨entries, hwalk, hnames, rfl⟩ := requiredLeft_eq_ok.mp hleft
      exact .declared hfiltered hp hafter hkept hwalk hnames
    · replace hp := not_exists.mp hp
      rw [adjustRequired_of_not_object hp] at hadjusted
      cases hadjusted
      exact .plain hp hfiltered
  · rintro ⟨left, rfl, h⟩
    cases h with
    | plain undeclared inside =>
      refine ⟨left, inside, ?_⟩
      rw [adjustRequired_of_not_object undeclared]
      rfl
    | declared inside before after visible walked names =>
      refine ⟨_, inside, ?_⟩
      rw [(adjustRequired_of_object before after).mpr
        ⟨_, requiredLeft_eq_ok.mpr ⟨_, walked, names, rfl⟩, rfl⟩]
      rfl

/-- Filtering leaves a value as it is or goes into the fields of a schema. -/
theorem filterSchema_cases (h : vis.filterSchema v = .ok v') :
    v' = v ∨ ∃ fields after, v = .object fields ∧ v' = .object after ∧
      Fields.has fields "$ref" = false ∧ Filtered vis fields after := by
  cases v with
  | scalar s =>
    cases h
    exact Or.inl rfl
  | list vs =>
    cases h
    exact Or.inl rfl
  | object fields =>
    cases href : Fields.has fields "$ref" with
    | true =>
      rw [filterSchema, if_pos href] at h
      cases h
      exact Or.inl rfl
    | false =>
      obtain ⟨after, rfl, hafter⟩ := (filterSchema_object href).mp h
      exact Or.inr ⟨fields, after, rfl, rfl, href, hafter⟩

/-- Besides the required entries, filtering leaves every field in its place. -/
theorem Filtered.has {after : Fields} (h : Filtered vis fields after) (hk : k ≠ "required") :
    Fields.has after k = Fields.has fields k := by
  cases h with
  | plain undeclared inside => exact has_filterFields inside k
  | declared inside before after visible walked names =>
    rw [Fields.has, get?_withRequired hk]
    exact has_filterFields inside k

/-- Apart from the required entries and what holds schemas, values are as they were. -/
theorem Filtered.value {after : Fields} (h : Filtered vis fields after) (hk : k ≠ "required")
    (hfiltered : k ∉ filteredKeywords) : Fields.value after k = Fields.value fields k := by
  cases h with
  | plain undeclared inside => exact value_filterFields hfiltered inside
  | declared inside before after visible walked names =>
    rw [value_withRequired hk]
    exact value_filterFields hfiltered inside

/-! ## Filtering twice -/

/-- Filtering the outcome again changes nothing, and names that were texts, or different from each
other, still are. -/
structure Stable (again : Value → Except Fault Value) (v v' : Value) : Prop where
  again : again v' = .ok v'
  textNamed : v.textNamed = true → v'.textNamed = true
  distinct : v.distinct = true → v'.distinct = true

/-- The same for the fields of an object. -/
structure StableFields (again : Fields → Except Fault Fields) (fields filtered : Fields) : Prop where
  again : again filtered = .ok filtered
  textNamed : Fields.textNamed fields = true → Fields.textNamed filtered = true
  distinct : Fields.distinct fields = true → Fields.distinct filtered = true

theorem Stable.same {again : Value → Except Fault Value} (h : again v = .ok v) : Stable again v v :=
  ⟨h, id, id⟩

/-- **A definition is as visible after filtering as before.** -/
theorem shows_filterSchema (h : vis.filterSchema v = .ok v') : vis.shows v' = vis.shows v := by
  rcases filterSchema_cases h with rfl | ⟨fields, after, rfl, rfl, -, hafter⟩
  · rfl
  · unfold shows
    dsimp only
    rw [hafter.value (by decide) (by decide), hafter.value (by decide) (by decide)]

theorem textNamed_withRequired (h : Fields.textNamed fields = true)
    (hleft : ∀ entry ∈ left, ∃ name, entry = .scalar name) :
    Fields.textNamed (withRequired fields left) = true := by
  unfold withRequired
  split
  · exact Fields.textNamed_erase h _
  · refine Fields.textNamed_put h _ (Value.textNamedAll_iff.mpr fun entry hentry => ?_)
    obtain ⟨name, rfl⟩ := hleft entry hentry
    rfl

theorem distinct_withRequired (h : Fields.distinct fields = true)
    (hleft : ∀ entry ∈ left, ∃ name, entry = .scalar name) :
    Fields.distinct (withRequired fields left) = true := by
  unfold withRequired
  split
  · exact Fields.distinct_erase h _
  · have hentries : (Value.list left).distinct = true := by
      refine Value.distinctAll_iff.mpr fun entry hentry => ?_
      obtain ⟨name, rfl⟩ := hleft entry hentry
      rfl
    exact Fields.distinct_put hentries _ h

/-- What filtering makes of the fields of a schema is stable if it is field by field. -/
theorem Filtered.stable {after : Fields} (h : Filtered vis fields after)
    (href : Fields.has fields "$ref" = false)
    (hfields : ∀ filtered, vis.filterFields fields = .ok filtered →
      StableFields vis.filterFields fields filtered) :
    Stable vis.filterSchema (.object fields) (.object after) := by
  cases h with
  | plain undeclared inside =>
    obtain ⟨hagain, htext, hdistinct⟩ := hfields _ inside
    refine ⟨(filterSchema_object ?_).mpr ⟨_, rfl, .plain ?_ hagain⟩, htext, hdistinct⟩
    · rw [has_filterFields inside]
      exact href
    · rw [value_properties_of_not_object inside undeclared]
      exact undeclared
  | @declared filtered properties kept entries inside before after visible walked names =>
    obtain ⟨hagain, htext, hdistinct⟩ := hfields _ inside
    have hleft : ∀ entry ∈ entries.filter (remains properties kept), ∃ name, entry = .scalar name :=
      fun entry hentry => names entry (List.mem_of_mem_filter hentry)
    refine ⟨(filterSchema_object ?_).mpr ⟨_, rfl, ?_⟩,
      fun h => textNamed_withRequired (htext h) hleft,
      fun h => distinct_withRequired (hdistinct h) hleft⟩
    · rw [Fields.has, get?_withRequired (by decide), ← Fields.has, has_filterFields inside]
      exact href
    · generalize entries.filter (remains properties kept) = left at hleft ⊢
      have hvalue : (withRequired filtered left).value "properties" = .object kept := by
        rw [value_withRequired (by decide), after]
      have hkept : vis.filterVisible kept = .ok kept := by
        obtain ⟨kept', hkept', hvisible⟩ := value_properties_filterFields hagain after
        rw [after] at hkept'
        cases hkept'
        exact hvisible
      have hdeclared := Filtered.declared (filterFields_withRequired hagain left) hvalue hvalue hkept
        (walkIfSet_withRequired _ _) hleft
      rwa [filter_remains_self hleft, withRequired_withRequired _ _ _ id] at hdeclared

mutual

/-- **What was filtered once is left alone by a second time.** -/
theorem filterSchema_stable : ∀ {v v' : Value}, vis.filterSchema v = .ok v' →
    Stable vis.filterSchema v v'
  | .object fields, _, h => by
    cases href : Fields.has fields "$ref" with
    | true =>
      have hsame : vis.filterSchema (.object fields) = .ok (.object fields) := by
        rw [filterSchema, if_pos href]
      rw [hsame] at h
      cases h
      exact .same hsame
    | false =>
      obtain ⟨left, rfl, hleft⟩ := (filterSchema_object href).mp h
      exact hleft.stable href fun _ hfiltered => filterFields_stable hfiltered
  | .scalar s, _, h => by
    cases h
    exact .same rfl
  | .list vs, _, h => by
    cases h
    exact .same rfl
termination_by structural v => v

/-- Filtering again changes nothing, field by field. -/
theorem filterFields_stable : ∀ {fields filtered : Fields}, vis.filterFields fields = .ok filtered →
    StableFields vis.filterFields fields filtered
  | [], _, h => by
    cases h
    exact ⟨rfl, id, id⟩
  | (name, value) :: fields, _, h => by
    rw [filterFields_cons] at h
    obtain ⟨value', hvalue, h⟩ := Outcome.bind_eq_ok.mp h
    obtain ⟨filtered, hfields, h⟩ := Outcome.bind_eq_ok.mp h
    cases h
    obtain ⟨hagain, htext, hdistinct⟩ := filterFields_stable hfields
    have hnames := forall₂_of_filterFields hfields
    have hstable : Stable (filterValue vis name) value value' := by
      unfold filterValue at hvalue ⊢
      split at hvalue
      case h_6 =>
        cases hvalue
        exact .same rfl
      · exact filterProperties_stable hvalue
      · exact filterSchema_stable hvalue
      · exact filterBranches_stable hvalue
      · exact filterBranches_stable hvalue
      · exact filterBranches_stable hvalue
    refine ⟨?_, fun h => ?_, fun h => ?_⟩
    · rw [filterFields_cons, hstable.again, hagain]
      rfl
    · rw [Fields.textNamed, Bool.and_eq_true, Bool.and_eq_true] at h ⊢
      exact ⟨⟨h.1.1, hstable.textNamed h.1.2⟩, htext h.2⟩
    · rw [Fields.distinct_cons] at h ⊢
      refine ⟨hstable.distinct h.1, fun g hg => ?_, hdistinct h.2.2⟩
      obtain ⟨f, hf, hname, -⟩ := Outcome.exists_left_of_mem hnames hg
      exact hname ▸ h.2.1 f hf
termination_by structural fields => fields

theorem filterProperties_stable : ∀ {v v' : Value}, vis.filterProperties v = .ok v' →
    Stable vis.filterProperties v v'
  | .object properties, _, h => by
    obtain ⟨kept, hkept, h⟩ := Outcome.bind_eq_ok.mp h
    cases h
    obtain ⟨hagain, htext, hdistinct⟩ := filterVisible_stable hkept
    refine ⟨?_, htext, hdistinct⟩
    rw [filterProperties, hagain]
    rfl
  | .scalar s, _, h => by
    cases h
    exact .same rfl
  | .list vs, _, h => by
    cases h
    exact .same rfl
termination_by structural v => v

theorem filterVisible_stable : ∀ {fields kept : Fields}, vis.filterVisible fields = .ok kept →
    StableFields vis.filterVisible fields kept
  | [], _, h => by
    cases h
    exact ⟨rfl, id, id⟩
  | (name, definition) :: fields, _, h => by
    rw [filterVisible] at h
    split at h
    · rename_i hshown
      obtain ⟨definition', hd, h⟩ := Outcome.bind_eq_ok.mp h
      obtain ⟨kept, hkept, h⟩ := Outcome.bind_eq_ok.mp h
      cases h
      have hstable := filterSchema_stable hd
      obtain ⟨hagain, htext, hdistinct⟩ := filterVisible_stable hkept
      have hnames := forall₂_of_filterVisible hkept
      refine ⟨?_, fun h => ?_, fun h => ?_⟩
      · rw [filterVisible, shows_filterSchema hd, if_pos hshown, hstable.again, hagain]
        rfl
      · rw [Fields.textNamed, Bool.and_eq_true, Bool.and_eq_true] at h ⊢
        exact ⟨⟨h.1.1, hstable.textNamed h.1.2⟩, htext h.2⟩
      · rw [Fields.distinct_cons] at h ⊢
        refine ⟨hstable.distinct h.1, fun g hg => ?_, hdistinct h.2.2⟩
        obtain ⟨f, hf, hname, -⟩ := Outcome.exists_left_of_mem hnames hg
        exact hname ▸ h.2.1 f (List.mem_of_mem_filter hf)
    · obtain ⟨hagain, htext, hdistinct⟩ := filterVisible_stable h
      refine ⟨hagain, fun h => htext ?_, fun h => hdistinct (Fields.distinct_cons.mp h).2.2⟩
      rw [Fields.textNamed, Bool.and_eq_true] at h
      exact h.2
termination_by structural fields => fields

theorem filterBranches_stable : ∀ {v v' : Value}, vis.filterBranches v = .ok v' →
    Stable vis.filterBranches v v'
  | .list vs, _, h => by
    obtain ⟨filtered, hfiltered, h⟩ := Outcome.bind_eq_ok.mp h
    cases h
    obtain ⟨hagain, htext, hdistinct⟩ := filterAll_stable hfiltered
    refine ⟨?_, htext, hdistinct⟩
    rw [filterBranches, hagain]
    rfl
  | .scalar s, _, h => by
    cases h
    exact .same rfl
  | .object fields, _, h => by
    cases h
    exact .same rfl
termination_by structural v => v

theorem filterAll_stable : ∀ {vs filtered : List Value}, vis.filterAll vs = .ok filtered →
    vis.filterAll filtered = .ok filtered ∧
      (Value.textNamedAll vs = true → Value.textNamedAll filtered = true) ∧
      (Value.distinctAll vs = true → Value.distinctAll filtered = true)
  | [], _, h => by
    cases h
    exact ⟨rfl, id, id⟩
  | v :: vs, _, h => by
    rw [filterAll] at h
    obtain ⟨v', hv, h⟩ := Outcome.bind_eq_ok.mp h
    obtain ⟨filtered, hvs, h⟩ := Outcome.bind_eq_ok.mp h
    cases h
    have hstable := filterSchema_stable hv
    obtain ⟨hagain, htext, hdistinct⟩ := filterAll_stable hvs
    refine ⟨?_, fun h => ?_, fun h => ?_⟩
    · rw [filterAll, hstable.again, hagain]
      rfl
    · rw [Value.textNamedAll, Bool.and_eq_true] at h ⊢
      exact ⟨hstable.textNamed h.1, htext h.2⟩
    · rw [Value.distinctAll, Bool.and_eq_true] at h ⊢
      exact ⟨hstable.distinct h.1, hdistinct h.2⟩
termination_by structural vs => vs

end

/-- The same, for what filtering leaves of a schema. -/
theorem Filtered.again {after : Fields} (h : Filtered vis fields after) :
    vis.filterFields after = .ok after := by
  cases h with
  | plain undeclared inside => exact (filterFields_stable inside).again
  | declared inside before after visible walked names =>
    exact filterFields_withRequired (filterFields_stable inside).again _

end SchemaForge.Visibility
