import Mathlib.Data.List.Zip
import SchemaForge.Proofs.Compile.BranchWalk
import SchemaForge.Proofs.Compile.Filtering

/-!
# What filtering leaves at every level

Filtering goes down through visible properties, items and branches until it comes to a reference. At
each level that it comes by it does the same (`FilteredLevel`): of the properties it keeps the visible
ones, of the required entries those whose property was not removed, and everything else stays as it is
and where it is.

A schema inside the outcome is the counterpart of one in its place inside the original
(`Counterpart`), and what filtering makes of the one is the other (`Counterpart.filterSchema_eq`). So
the statement about one level is one about all of them (`filter_levels`).
-/

namespace SchemaForge

/-! ## Lists side by side -/

theorem exists_zip_left {α β : Type} {R : α → β → Prop} {l : List α} {r : List β}
    (h : List.Forall₂ R l r) {y : β} (hy : y ∈ r) : ∃ x, (x, y) ∈ l.zip r := by
  induction h with
  | nil => cases hy
  | cons _ _ ih =>
    obtain rfl | hy := List.mem_cons.mp hy
    · exact ⟨_, List.mem_cons_self⟩
    · obtain ⟨x, hx⟩ := ih hy
      exact ⟨x, List.mem_cons_of_mem _ hx⟩

theorem exists_zip_right {α β : Type} {R : α → β → Prop} {l : List α} {r : List β}
    (h : List.Forall₂ R l r) {x : α} (hx : x ∈ l) : ∃ y, (x, y) ∈ l.zip r := by
  obtain ⟨y, hy⟩ := exists_zip_left h.flip hx
  refine ⟨y, ?_⟩
  rw [← List.zip_swap]
  exact List.mem_map_of_mem hy

theorem exists_forall₂ {α β : Type} {R : α → β → Prop} : ∀ {l : List α},
    (∀ x ∈ l, ∃ y, R x y) → ∃ r, List.Forall₂ R l r
  | [], _ => ⟨[], .nil⟩
  | x :: l, h => by
    obtain ⟨hfirst, hrest⟩ := List.forall_mem_cons.mp h
    obtain ⟨y, hy⟩ := hfirst
    obtain ⟨r, hr⟩ := exists_forall₂ hrest
    exact ⟨y :: r, .cons hy hr⟩

namespace Fields

theorem names_put {fields : Fields} {k : String} (h : fields.has k = true) (v : Value) :
    (fields.put (.text k) v).names = fields.names := by
  induction fields with
  | nil => cases h
  | cons f fields ih =>
    rw [put_cons]
    split
    · rfl
    · rename_i hname
      have hrest : Fields.has fields k = true := by
        rwa [Fields.has, get?_cons, if_neg hname] at h
      exact congrArg (f.1 :: ·) (ih hrest)

theorem names_of_forall₂ {P : Scalar × Value → Scalar × Value → Prop} {fields fields' : Fields}
    (h : List.Forall₂ (fun f f' => f.1 = f'.1 ∧ P f f') fields fields') :
    fields'.names = fields.names := by
  induction h with
  | nil => rfl
  | cons hf _ ih => exact congrArg₂ List.cons hf.1.symm ih

end Fields

namespace Visibility

open Reference

/-- The keywords whose values are lists of schemas. -/
def branchKeywords : List String := ["allOf", "oneOf", "anyOf"]

/-! ## Levels -/

/-- What stands under a name before and after filtering: the same, or properties, items or branches,
which are schemas in their turn. -/
inductive Renewed : Scalar → Value → Value → Prop where
  | same {name : Scalar} {v : Value} : Renewed name v v
  | properties {properties kept : Fields} :
      Renewed (.text "properties") (.object properties) (.object kept)
  | items {fields after : Fields} : Renewed (.text "items") (.object fields) (.object after)
  | branches {k : String} {branches left : List Value} (keyword : k ∈ branchKeywords)
      (length : left.length = branches.length) : Renewed (.text k) (.list branches) (.list left)

/-- The fields of a schema before and after filtering. -/
structure FilteredLevel (vis : Visibility) (fields after : Fields) : Prop where
  /-- Beside the required entries every field is there, in its place. -/
  others : List.Forall₂ (fun f f' => f.1 = f'.1 ∧ Renewed f.1 f.2 f'.2) (fields.erase "required")
    (after.erase "required")
  /-- Required entries stay in their place too, if any are left. -/
  names : after.names =
    if after.has "required" then fields.names else (fields.erase "required").names
  /-- Without properties, the required entries stay. -/
  undeclared : (∀ properties, fields.value "properties" ≠ .object properties) →
    after.get? "required" = fields.get? "required"
  /-- Of the properties those are kept that are visible, and of the required entries those whose
  property was not removed. -/
  declared : ∀ properties, fields.value "properties" = .object properties →
    ∃ kept entries, after.value "properties" = .object kept ∧
      Fields.names kept = Fields.names (properties.filter fun f => vis.shows f.2) ∧
      (∀ f ∈ kept, vis.shows f.2 = true) ∧
      (fields.value "required").walkIfSet = .ok entries ∧
      after.get? "required" =
        let left := entries.filter (remains properties kept)
        if left.isEmpty then none else some (.list left)

/-- A value before and after filtering, as far as its own level goes. -/
inductive FilteredHere (vis : Visibility) : Value → Value → Prop where
  | leaf {v : Value} (noSchema : v.isObject = false) : FilteredHere vis v v
  | reference {fields : Fields} (held : fields.has "$ref" = true) :
      FilteredHere vis (.object fields) (.object fields)
  | schema {fields after : Fields} (own : fields.has "$ref" = false)
      (level : FilteredLevel vis fields after) : FilteredHere vis (.object fields) (.object after)

/-! ## Schemas inside schemas -/

/-- A value stands inside a schema: under a visible property, as its items or as a branch, and so on
until a reference. -/
inductive Reaches (vis : Visibility) (v : Value) : Value → Prop where
  | self : Reaches vis v v
  | property {fields properties : Fields} {f : Scalar × Value}
      (outer : Reaches vis v (.object fields)) (own : fields.has "$ref" = false)
      (held : fields.value "properties" = .object properties)
      (listed : f ∈ properties) (visible : vis.shows f.2 = true) : Reaches vis v f.2
  | items {fields inner : Fields} (outer : Reaches vis v (.object fields))
      (own : fields.has "$ref" = false) (held : fields.value "items" = .object inner) :
      Reaches vis v (.object inner)
  | branch {fields : Fields} {k : String} {branches : List Value} {b : Value}
      (outer : Reaches vis v (.object fields)) (own : fields.has "$ref" = false)
      (keyword : k ∈ branchKeywords) (held : fields.value k = .list branches)
      (listed : b ∈ branches) : Reaches vis v b

/-- A value inside a schema, and the value in its place inside the outcome of filtering. -/
inductive Counterpart (vis : Visibility) (v v' : Value) : Value → Value → Prop where
  | self : Counterpart vis v v' v v'
  | property {fields after properties kept : Fields} {f f' : Scalar × Value}
      (outer : Counterpart vis v v' (.object fields) (.object after))
      (own : fields.has "$ref" = false) (held : fields.value "properties" = .object properties)
      (held' : after.value "properties" = .object kept)
      (listed : (f, f') ∈ (properties.filter fun f => vis.shows f.2).zip kept) :
      Counterpart vis v v' f.2 f'.2
  | items {fields after inner inner' : Fields}
      (outer : Counterpart vis v v' (.object fields) (.object after))
      (own : fields.has "$ref" = false) (held : fields.value "items" = .object inner)
      (held' : after.value "items" = .object inner') :
      Counterpart vis v v' (.object inner) (.object inner')
  | branch {fields after : Fields} {k : String} {branches left : List Value} {b b' : Value}
      (outer : Counterpart vis v v' (.object fields) (.object after))
      (own : fields.has "$ref" = false) (keyword : k ∈ branchKeywords)
      (held : fields.value k = .list branches) (held' : after.value k = .list left)
      (listed : (b, b') ∈ branches.zip left) : Counterpart vis v v' b b'

/-- A schema can be filtered: beside properties, what is required are names. -/
def Filterable (v : Value) : Prop :=
  ∀ fields properties : Fields, v = .object fields → fields.has "$ref" = false →
    fields.value "properties" = .object properties →
    ∃ entries, (fields.value "required").walkIfSet = .ok entries ∧
      ∀ entry ∈ entries, ∃ name, entry = .scalar name

variable {vis : Visibility} {fields after filtered : Fields} {v v' w w' : Value} {k : String}

/-! ## One level -/

theorem renewed_of_filterValue {name : Scalar} (h : filterValue vis name v = .ok v') :
    Renewed name v v' := by
  have hbranches : ∀ {k : String}, k ∈ branchKeywords → vis.filterBranches v = .ok v' →
      Renewed (.text k) v v' := by
    intro k hk h
    cases v with
    | list branches =>
      obtain ⟨left, hleft, h⟩ := Outcome.bind_eq_ok.mp h
      cases h
      exact .branches hk (forall₂_of_filterAll hleft).length_eq.symm
    | scalar s =>
      cases h
      exact .same
    | object fields =>
      cases h
      exact .same
  unfold filterValue at h
  split at h
  · cases v with
    | object properties =>
      obtain ⟨kept, -, h⟩ := Outcome.bind_eq_ok.mp h
      cases h
      exact .properties
    | scalar s =>
      cases h
      exact .same
    | list items =>
      cases h
      exact .same
  · obtain rfl | ⟨fields, after, rfl, rfl, -, -⟩ := filterSchema_cases h
    · exact .same
    · exact .items
  · exact hbranches (by decide) h
  · exact hbranches (by decide) h
  · exact hbranches (by decide) h
  · cases h
    exact .same

/-- Objects stay objects, and nothing else becomes one. -/
theorem Renewed.object_iff {name : Scalar} (h : Renewed name v v') :
    (∃ fields, v = .object fields) ↔ ∃ fields, v' = .object fields := by
  cases h with
  | same => rfl
  | properties => exact iff_of_true ⟨_, rfl⟩ ⟨_, rfl⟩
  | items => exact iff_of_true ⟨_, rfl⟩ ⟨_, rfl⟩
  | branches keyword length => exact iff_of_false nofun nofun

/-- Lists stay lists, and nothing else becomes one. -/
theorem Renewed.list_iff {name : Scalar} (h : Renewed name v v') :
    (∃ items, v = .list items) ↔ ∃ items, v' = .list items := by
  cases h with
  | same => rfl
  | properties => exact iff_of_false nofun nofun
  | items => exact iff_of_false nofun nofun
  | branches keyword length => exact iff_of_true ⟨_, rfl⟩ ⟨_, rfl⟩

theorem names_filterFields (h : vis.filterFields fields = .ok filtered) :
    filtered.names = fields.names :=
  Fields.names_of_forall₂ (forall₂_of_filterFields h)

theorem erase_withRequired (fields : Fields) (left : List Value) :
    (withRequired fields left).erase "required" = fields.erase "required" := by
  unfold withRequired
  split
  · exact Fields.erase_of_not_has (by simp [Fields.has, Fields.get?_erase])
  · exact Fields.erase_put _ _ _

theorem get?_required_withRequired (fields : Fields) (left : List Value) :
    (withRequired fields left).get? "required" =
      if left.isEmpty then none else some (.list left) := by
  unfold withRequired
  split
  · rw [Fields.get?_erase, if_pos rfl]
  · rw [Fields.get?_put, if_pos rfl]

theorem names_withRequired {left : List Value}
    (h : left.isEmpty = false → fields.has "required" = true) :
    (withRequired fields left).names =
      if (withRequired fields left).has "required" then fields.names
      else (fields.erase "required").names := by
  rw [Fields.has, get?_required_withRequired, withRequired]
  cases hleft : left.isEmpty with
  | true => rfl
  | false => exact Fields.names_put (h hleft) _

/-- **What filtering does at one level.** -/
theorem Filtered.level (h : Filtered vis fields after) : FilteredLevel vis fields after := by
  have hothers : ∀ {filtered : Fields}, vis.filterFields fields = .ok filtered →
      List.Forall₂ (fun f f' => f.1 = f'.1 ∧ Renewed f.1 f.2 f'.2) (fields.erase "required")
        (filtered.erase "required") := fun inside =>
    (forall₂_of_filterFields (filterFields_erase inside "required")).imp fun _ _ hf =>
      ⟨hf.1, renewed_of_filterValue hf.2⟩
  cases h with
  | plain undeclared inside =>
    refine ⟨hothers inside, ?_, fun _ => get?_filterFields_of_keyword inside (by decide),
      fun properties hp => absurd hp (undeclared properties)⟩
    rw [names_filterFields inside, has_filterFields inside]
    split
    · rfl
    · rename_i hno
      rw [Fields.erase_of_not_has hno]
  | @declared filtered properties kept entries inside before after visible walked names =>
    refine ⟨?_, ?_, fun hno => absurd before (hno properties), fun properties' before' => ?_⟩
    · rw [erase_withRequired]
      exact hothers inside
    · rw [names_withRequired, names_filterFields inside]
      · congr 1
        exact names_filterFields (filterFields_erase inside "required")
      -- entries can only be left if there were some, so there is a place for them
      · intro hleft
        rw [has_filterFields inside]
        refine Fields.has_of_value_ne fun hnull => ?_
        rw [hnull] at walked
        cases walked
        cases hleft
    · rw [before] at before'
      cases before'
      have hkept := forall₂_of_filterVisible visible
      refine ⟨kept, entries, ?_, Fields.names_of_forall₂ hkept, fun f hf => ?_, walked,
        get?_required_withRequired _ _⟩
      · rw [value_withRequired (by decide), after]
      · obtain ⟨g, hg, -, hfiltered⟩ := Outcome.exists_left_of_mem hkept hf
        rw [shows_filterSchema hfiltered]
        simpa using List.of_mem_filter hg

theorem filteredHere_of_filterSchema (h : vis.filterSchema v = .ok v') : FilteredHere vis v v' := by
  cases v with
  | scalar s =>
    cases h
    exact .leaf rfl
  | list items =>
    cases h
    exact .leaf rfl
  | object fields =>
    cases href : Fields.has fields "$ref" with
    | true =>
      rw [filterSchema, if_pos href] at h
      cases h
      exact .reference href
    | false =>
      obtain ⟨after, rfl, hafter⟩ := (filterSchema_object href).mp h
      exact .schema href hafter.level

/-! ## All levels -/

theorem filterValue_null (name : Scalar) : filterValue vis name .null = .ok .null := by
  unfold filterValue
  split <;> rfl

/-- What stands under a name besides the required entries was filtered. -/
theorem Filtered.filterValue_eq (h : Filtered vis fields after) (hk : k ≠ "required") :
    filterValue vis (.text k) (fields.value k) = .ok (after.value k) := by
  have hinside : ∀ {filtered : Fields}, vis.filterFields fields = .ok filtered →
      filterValue vis (.text k) (fields.value k) = .ok (filtered.value k) := by
    intro filtered inside
    obtain ⟨hnone, hnone'⟩ | ⟨v, v', hv, hv', hfiltered⟩ := get?_filterFields (k := k) inside
    · rw [Fields.value, Fields.value, hnone, hnone']
      exact filterValue_null _
    · rwa [Fields.value_of_get? hv, Fields.value_of_get? hv']
  cases h with
  | plain undeclared inside => exact hinside inside
  | declared inside before after visible walked names =>
    rw [value_withRequired hk]
    exact hinside inside

theorem Filtered.forall₂_properties (h : Filtered vis fields after) {properties kept : Fields}
    (hp : fields.value "properties" = .object properties)
    (hkept : after.value "properties" = .object kept) :
    List.Forall₂ (fun f f' => f.1 = f'.1 ∧ vis.filterSchema f.2 = .ok f'.2)
      (properties.filter fun f => vis.shows f.2) kept := by
  have hvalue := h.filterValue_eq (by decide : "properties" ≠ "required")
  rw [hp, hkept] at hvalue
  obtain ⟨kept', hkept', heq⟩ := Outcome.bind_eq_ok.mp hvalue
  cases heq
  exact forall₂_of_filterVisible hkept'

theorem Filtered.filterSchema_items (h : Filtered vis fields after) {inner : Fields}
    (hitems : fields.value "items" = .object inner) :
    vis.filterSchema (.object inner) = .ok (after.value "items") := by
  have hvalue := h.filterValue_eq (by decide : "items" ≠ "required")
  rwa [hitems] at hvalue

theorem filterValue_branches (hk : k ∈ branchKeywords) (v : Value) :
    filterValue vis (.text k) v = vis.filterBranches v := by
  simp only [branchKeywords, List.mem_cons, List.not_mem_nil, or_false] at hk
  obtain rfl | rfl | rfl := hk <;> rfl

theorem ne_required_of_branches (hk : k ∈ branchKeywords) : k ≠ "required" := by
  rintro rfl
  exact absurd hk (by decide)

theorem Filtered.forall₂_branches (h : Filtered vis fields after) (hk : k ∈ branchKeywords)
    {branches left : List Value} (hbranches : fields.value k = .list branches)
    (hleft : after.value k = .list left) : FilteredAll vis branches left := by
  have hvalue := h.filterValue_eq (ne_required_of_branches hk)
  rw [filterValue_branches hk, hbranches, hleft] at hvalue
  obtain ⟨left', hleft', heq⟩ := Outcome.bind_eq_ok.mp hvalue
  cases heq
  exact forall₂_of_filterAll hleft'

theorem Filtered.renewed (h : Filtered vis fields after) (hk : k ≠ "required") :
    Renewed (.text k) (fields.value k) (after.value k) :=
  renewed_of_filterValue (h.filterValue_eq hk)

theorem filtered_of_filterSchema (own : Fields.has fields "$ref" = false)
    (h : vis.filterSchema (.object fields) = .ok v') :
    ∃ after, v' = .object after ∧ Filtered vis fields after :=
  (filterSchema_object own).mp h

/-- A schema that is no reference was none before it was filtered. -/
theorem filtered_of_outcome (own : Fields.has after "$ref" = false)
    (h : vis.filterSchema v = .ok (.object after)) :
    ∃ fields, v = .object fields ∧ Fields.has fields "$ref" = false ∧ Filtered vis fields after := by
  cases filteredHere_of_filterSchema h with
  | leaf noSchema => cases noSchema
  | reference held =>
    rw [own] at held
    cases held
  | @schema fields _ own' level =>
    obtain ⟨after', heq, hafter⟩ := filtered_of_filterSchema own' h
    cases heq
    exact ⟨fields, rfl, own', hafter⟩

/-- **A counterpart is what filtering makes of the schema in its place.** -/
theorem Counterpart.filterSchema_eq (h : vis.filterSchema v = .ok v')
    (hw : Counterpart vis v v' w w') : vis.filterSchema w = .ok w' := by
  have hlevel : ∀ {fields after : Fields}, fields.has "$ref" = false →
      vis.filterSchema (.object fields) = .ok (.object after) → Filtered vis fields after := by
    intro fields after own hfiltered
    obtain ⟨after', heq, hafter⟩ := filtered_of_filterSchema own hfiltered
    cases heq
    exact hafter
  -- on the way down: a step goes where filtering its level went
  induction hw with
  | self => exact h
  | property outer own held held' listed ih =>
    exact (List.forall₂_zip ((hlevel own ih).forall₂_properties held held') listed).2
  | items outer own held held' ih =>
    rw [(hlevel own ih).filterSchema_items held, held']
  | branch outer own keyword held held' listed ih =>
    exact List.forall₂_zip ((hlevel own ih).forall₂_branches keyword held held') listed

/-- Every value inside a schema has a counterpart in the outcome. -/
theorem Reaches.exists_counterpart (h : vis.filterSchema v = .ok v') (hw : Reaches vis v w) :
    ∃ w', Counterpart vis v v' w w' := by
  have hlevel : ∀ {fields : Fields} {w' : Value}, Fields.has fields "$ref" = false →
      Counterpart vis v v' (.object fields) w' →
      ∃ after, w' = .object after ∧ Filtered vis fields after := fun own hw =>
    filtered_of_filterSchema own (hw.filterSchema_eq h)
  induction hw with
  | self => exact ⟨v', .self⟩
  | @property fields properties f outer own held listed visible ih =>
    obtain ⟨w', hw'⟩ := ih
    obtain ⟨after, rfl, hafter⟩ := hlevel own hw'
    obtain ⟨kept, hkept⟩ := (hafter.renewed (by decide)).object_iff.mp ⟨_, held⟩
    obtain ⟨f', hf'⟩ := exists_zip_right (hafter.forall₂_properties held hkept)
      (List.mem_filter.mpr ⟨listed, visible⟩)
    exact ⟨f'.2, .property hw' own held hkept hf'⟩
  | @items fields inner outer own held ih =>
    obtain ⟨w', hw'⟩ := ih
    obtain ⟨after, rfl, hafter⟩ := hlevel own hw'
    obtain ⟨inner', hinner'⟩ := (hafter.renewed (by decide)).object_iff.mp ⟨_, held⟩
    exact ⟨_, .items hw' own held hinner'⟩
  | @branch fields k branches b outer own keyword held listed ih =>
    obtain ⟨w', hw'⟩ := ih
    obtain ⟨after, rfl, hafter⟩ := hlevel own hw'
    obtain ⟨left, hleft⟩ := (hafter.renewed (ne_required_of_branches keyword)).list_iff.mp ⟨_, held⟩
    obtain ⟨b', hb'⟩ := exists_zip_right (hafter.forall₂_branches keyword held hleft) listed
    exact ⟨b', .branch hw' own keyword held hleft hb'⟩

/-- Every value inside the outcome is a counterpart of one inside the schema. -/
theorem Reaches.exists_original (h : vis.filterSchema v = .ok v') (hw : Reaches vis v' w') :
    ∃ w, Counterpart vis v v' w w' := by
  have hlevel : ∀ {after : Fields} {w : Value}, Fields.has after "$ref" = false →
      Counterpart vis v v' w (.object after) →
      ∃ fields, w = .object fields ∧ Fields.has fields "$ref" = false ∧ Filtered vis fields after :=
    fun own hw => filtered_of_outcome own (hw.filterSchema_eq h)
  induction hw with
  | self => exact ⟨v, .self⟩
  | @property after kept f' outer own held listed visible ih =>
    obtain ⟨w, hw⟩ := ih
    obtain ⟨fields, rfl, own', hafter⟩ := hlevel own hw
    obtain ⟨properties, hproperties⟩ := (hafter.renewed (by decide)).object_iff.mpr ⟨_, held⟩
    obtain ⟨f, hf⟩ := exists_zip_left (hafter.forall₂_properties hproperties held) listed
    exact ⟨f.2, .property hw own' hproperties held hf⟩
  | @items after inner' outer own held ih =>
    obtain ⟨w, hw⟩ := ih
    obtain ⟨fields, rfl, own', hafter⟩ := hlevel own hw
    obtain ⟨inner, hinner⟩ := (hafter.renewed (by decide)).object_iff.mpr ⟨_, held⟩
    exact ⟨_, .items hw own' hinner held⟩
  | @branch after k left b' outer own keyword held listed ih =>
    obtain ⟨w, hw⟩ := ih
    obtain ⟨fields, rfl, own', hafter⟩ := hlevel own hw
    obtain ⟨branches, hbranches⟩ :=
      (hafter.renewed (ne_required_of_branches keyword)).list_iff.mpr ⟨_, held⟩
    obtain ⟨b, hb⟩ := exists_zip_left (hafter.forall₂_branches keyword hbranches held) listed
    exact ⟨b, .branch hw own' keyword hbranches held hb⟩

/-! ## Schemas that can be filtered -/

theorem filterable_of_filterSchema (h : vis.filterSchema v = .ok v') : Filterable v := by
  rintro fields properties rfl own hp
  obtain ⟨after, rfl, hafter⟩ := filtered_of_filterSchema own h
  cases hafter with
  | plain undeclared inside => exact absurd hp (undeclared properties)
  | declared inside before after visible walked names => exact ⟨_, walked, names⟩

/-- What is inside of a value inside a schema is inside the schema. -/
theorem Reaches.trans {u : Value} (h : Reaches vis v w) (hu : Reaches vis w u) : Reaches vis v u := by
  induction hu with
  | self => exact h
  | property outer own held listed visible ih => exact ih.property own held listed visible
  | items outer own held ih => exact ih.items own held
  | branch outer own keyword held listed ih => exact ih.branch own keyword held listed

theorem exists_filterProperties {properties : Fields}
    (h : ∀ f ∈ properties, vis.shows f.2 = true → ∃ d, vis.filterSchema f.2 = .ok d) :
    ∃ v', vis.filterProperties (.object properties) = .ok v' := by
  obtain ⟨kept, hkept⟩ : ∃ kept : Fields,
      List.Forall₂ (fun f f' => f.1 = f'.1 ∧ vis.filterSchema f.2 = .ok f'.2)
        (properties.filter fun f => vis.shows f.2) kept := by
    refine exists_forall₂ fun f hf => ?_
    obtain ⟨hf, hshown⟩ := List.mem_filter.mp hf
    obtain ⟨d, hd⟩ := h f hf hshown
    exact ⟨(f.1, d), rfl, hd⟩
  refine ⟨.object kept, ?_⟩
  rw [filterProperties, filterVisible_of_forall₂ hkept]
  rfl

theorem filterAll_of_forall₂ {vs filtered : List Value} (h : FilteredAll vis vs filtered) :
    vis.filterAll vs = .ok filtered := by
  induction h with
  | nil => rfl
  | cons hv _ ih =>
    rw [filterAll, hv, ih]
    rfl

theorem exists_filterBranches {branches : List Value}
    (h : ∀ b ∈ branches, ∃ b', vis.filterSchema b = .ok b') :
    ∃ v', vis.filterBranches (.list branches) = .ok v' := by
  obtain ⟨left, hleft⟩ := exists_forall₂ h
  refine ⟨.list left, ?_⟩
  rw [filterBranches, filterAll_of_forall₂ hleft]
  rfl

/-- A level is filtered if the schemas inside it are. -/
theorem exists_filterFields (hdistinct : Fields.distinct fields = true)
    (hproperties : ∀ properties, fields.value "properties" = .object properties →
      ∀ f ∈ properties, vis.shows f.2 = true → ∃ d, vis.filterSchema f.2 = .ok d)
    (hitems : ∀ inner, fields.value "items" = .object inner →
      ∃ v', vis.filterSchema (.object inner) = .ok v')
    (hbranches : ∀ k ∈ branchKeywords, ∀ branches, fields.value k = .list branches →
      ∀ b ∈ branches, ∃ b', vis.filterSchema b = .ok b') :
    ∃ filtered, vis.filterFields fields = .ok filtered := by
  have hheld : ∀ {k : String} {v : Value}, (.text k, v) ∈ fields → fields.value k = v := fun hmem =>
    Fields.value_of_get? (Fields.get?_of_mem (Fields.distinct_iff.mp hdistinct).2 hmem)
  have hlists : ∀ k ∈ branchKeywords, ∀ v, (.text k, v) ∈ fields →
      ∃ v', vis.filterBranches v = .ok v' := by
    intro k hk v hmem
    cases v with
    | list branches => exact exists_filterBranches (hbranches k hk branches (hheld hmem))
    | scalar s => exact ⟨_, rfl⟩
    | object inner => exact ⟨_, rfl⟩
  have hvalue : ∀ f ∈ fields, ∃ v', filterValue vis f.1 f.2 = .ok v' := by
    rintro ⟨name, v⟩ hmem
    unfold filterValue
    dsimp only
    split
    · cases v with
      | object properties => exact exists_filterProperties (hproperties properties (hheld hmem))
      | scalar s => exact ⟨_, rfl⟩
      | list items => exact ⟨_, rfl⟩
    · cases v with
      | object inner => exact hitems inner (hheld hmem)
      | scalar s => exact ⟨_, rfl⟩
      | list items => exact ⟨_, rfl⟩
    · exact hlists "allOf" (by decide) v hmem
    · exact hlists "oneOf" (by decide) v hmem
    · exact hlists "anyOf" (by decide) v hmem
    · exact ⟨_, rfl⟩
  obtain ⟨filtered, hfiltered⟩ : ∃ filtered : Fields,
      List.Forall₂ (fun f f' => f.1 = f'.1 ∧ filterValue vis f.1 f.2 = .ok f'.2) fields filtered := by
    refine exists_forall₂ fun f hf => ?_
    obtain ⟨v', hv'⟩ := hvalue f hf
    exact ⟨(f.1, v'), rfl, hv'⟩
  exact ⟨filtered, filterFields_of_forall₂ hfiltered⟩

theorem weight_value_lt {inner : Value} (h : fields.value k = inner) (hset : inner ≠ .null) :
    inner.weight < (Value.object fields).weight := by
  have hhas : fields.has k = true := Fields.has_of_value_ne (by rwa [h])
  have hle := Fields.weight_le_of_mem (Fields.mem_of_get? (Fields.get?_of_has hhas))
  rw [h] at hle
  rw [Value.weight]
  exact Nat.lt_one_add_iff.mpr hle

/-- **By induction on the size: a schema is filtered if every level of it can be.** -/
theorem exists_filterSchema : ∀ {v : Value}, v.distinct = true →
    (∀ w, Reaches vis v w → Filterable w) → ∃ v', vis.filterSchema v = .ok v'
  | .scalar s, _, _ => ⟨.scalar s, rfl⟩
  | .list items, _, _ => ⟨.list items, rfl⟩
  | .object fields, hdistinct, hall => by
    have hdistinctAt : ∀ k, (Fields.value fields k).distinct = true := Fields.distinct_value hdistinct
    cases own : Fields.has fields "$ref" with
    | true => exact ⟨.object fields, by rw [filterSchema, if_pos own]⟩
    | false =>
      -- what stands inside is smaller, and what it reaches is reached from here
      obtain ⟨filtered, hfiltered⟩ : ∃ filtered, vis.filterFields fields = .ok filtered := by
        refine exists_filterFields hdistinct (fun properties held f hf hshown => ?_)
          (fun inner held => ?_) (fun k hk branches held b hb => ?_)
        · have hlt := Nat.lt_of_le_of_lt
            (Nat.le_add_left_of_le (Fields.weight_le_of_mem hf)) (weight_value_lt held nofun)
          have hd := hdistinctAt "properties"
          rw [held] at hd
          exact exists_filterSchema (Fields.distinct_of_mem hd hf) fun w hw =>
            hall w (Reaches.trans (.property .self own held hf hshown) hw)
        · have hlt := weight_value_lt held nofun
          have hd := hdistinctAt "items"
          rw [held] at hd
          exact exists_filterSchema hd fun w hw => hall w (Reaches.trans (.items .self own held) hw)
        · have hlt := Nat.lt_of_le_of_lt
            (Nat.le_add_left_of_le (Value.weight_le_of_mem hb)) (weight_value_lt held nofun)
          have hd := hdistinctAt k
          rw [held] at hd
          exact exists_filterSchema (Value.distinctAll_iff.mp hd b hb) fun w hw =>
            hall w (Reaches.trans (.branch .self own hk held hb) hw)
      by_cases hp : ∃ properties, Fields.value fields "properties" = .object properties
      · obtain ⟨properties, hp⟩ := hp
        obtain ⟨kept, hkept, hvisible⟩ := value_properties_filterFields hfiltered hp
        obtain ⟨entries, hwalk, hnames⟩ := hall _ .self fields properties rfl own hp
        exact ⟨_, (filterSchema_object own).mpr
          ⟨_, rfl, .declared hfiltered hp hkept hvisible hwalk hnames⟩⟩
      · exact ⟨_, (filterSchema_object own).mpr ⟨_, rfl, .plain (not_exists.mp hp) hfiltered⟩⟩
termination_by v => v.weight

/-- **Filtering removes the hidden properties and nothing else, at every level and once.** A schema is
filtered exactly if every level of it can be; then the values inside the outcome are the counterparts
of those inside the schema, each as filtering its level leaves it; and filtering the outcome changes
nothing. -/
theorem filter_levels (hvis : vis ≠ .all) {schema : Value} (hdistinct : schema.distinct = true) :
    ((∃ left, vis.filter schema = .ok left) ↔ ∀ w, Reaches vis schema w → Filterable w) ∧
      ∀ left, vis.filter schema = .ok left →
        (∀ w, Reaches vis schema w → ∃ w', Counterpart vis schema left w w') ∧
        (∀ w', Reaches vis left w' → ∃ w, Counterpart vis schema left w w') ∧
        (∀ w w', Counterpart vis schema left w w' → FilteredHere vis w w') ∧
        vis.filter left = .ok left := by
  have hfilter : vis.filter = vis.filterSchema := by
    funext v
    cases vis with
    | all => exact absurd rfl hvis
    | request => rfl
    | response => rfl
  rw [hfilter]
  refine ⟨⟨?_, exists_filterSchema hdistinct⟩, fun left hleft =>
    ⟨fun w hw => hw.exists_counterpart hleft, fun w' hw' => hw'.exists_original hleft,
      fun w w' hw => ?_, (filterSchema_stable hleft).again⟩⟩
  · rintro ⟨left, hleft⟩ w hw
    obtain ⟨w', hw'⟩ := hw.exists_counterpart hleft
    exact filterable_of_filterSchema (hw'.filterSchema_eq hleft)
  · exact filteredHere_of_filterSchema (hw.filterSchema_eq hleft)

/-- An order with a hidden identifier, whose lines may or may not show what they cost. -/
def orderOf (lineProperties : Fields) (lineRequired : List Value) (own : Fields)
    (required : Fields) : Value :=
  .object ([(.text "type", .text "object"),
    (.text "properties", .object (own ++ [(.text "lines", .object [(.text "items", .object
      [(.text "properties", .object lineProperties), (.text "required", .list lineRequired)])])]))] ++
    required)

theorem filter_levels_order :
    let hidden : Value := .object [(.text "readOnly", .bool true)]
    let sku : Scalar × Value := (.text "sku", .object [])
    let order := orderOf [sku, (.text "cost", hidden)] [.text "cost", .text "sku", .text "note"]
      [(.text "id", hidden)] [(.text "required", .list [.text "id"])]
    let left := orderOf [sku] [.text "sku", .text "note"] [] []
    Visibility.request ≠ .all ∧ order.distinct = true ∧ filter .request order = .ok left ∧
      filter .request left = .ok left ∧
      ∀ w w', Counterpart .request order left w w' → FilteredHere .request w w' := by
  intro hidden sku order left
  have hvis : Visibility.request ≠ .all := nofun
  have hdistinct : order.distinct = true := by decide
  have hleft : filter .request order = .ok left := rfl
  obtain ⟨-, -, hlevels, hagain⟩ := (filter_levels hvis hdistinct).2 left hleft
  exact ⟨hvis, hdistinct, hleft, hagain, hlevels⟩

end Visibility

end SchemaForge
