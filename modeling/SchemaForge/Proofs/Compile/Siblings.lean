import SchemaForge.Proofs.Compile.Concealment
import SchemaForge.Proofs.Compile.FirstDefinition
import SchemaForge.Proofs.Expression.Marks

/-!
# Properties next to branches

A schema may declare properties next to the branches of an `allOf`. They are counted wherever the
properties of the schema are gathered, but the composition is compiled from its branches alone. So a
visible property is in the compiled object if a branch declares it, and a property that only the
schema itself declares is lost.
-/

namespace SchemaForge

/-- What a chain holds under a name stands in one of its shapes. -/
theorem Expression.exists_shape_of_held? {e : Expression} {n : Scalar} {node : Node}
    (h : e.held? n = some node) :
    ∃ properties, .shape properties ∈ e.toNode.walk ∧ ∃ p ∈ properties, p.name.same n = true := by
  obtain ⟨p, hp, hname, -⟩ := Property.mem_of_last? h
  have hentries : ∀ m : Node, p ∈ m.entries → ∃ properties, .shape properties ∈ m.walk ∧
      ∃ p ∈ properties, p.name.same n = true := by
    intro m hm
    cases m with
    | shape properties => exact ⟨properties, List.mem_cons_self, p, hm, hname⟩
    | _ => cases hm
  rcases List.mem_append.mp hp with hp | hp
  · unfold Expression.shapeEntries at hp
    split at hp
    · rename_i callee m hbase
      obtain ⟨properties, hshape, hdeclared⟩ := hentries m hp
      refine ⟨properties, .tail _ (List.mem_append_left _ ?_), hdeclared⟩
      rw [hbase, Node.walk]
      exact .tail _ (Node.mem_walkAll.mpr ⟨m, List.mem_singleton_self m, hshape⟩)
    · cases hp
  · obtain ⟨modifier, hmodifier, hp⟩ := List.mem_flatMap.mp hp
    unfold Modifier.added at hp
    split at hp
    · rename_i m
      obtain ⟨properties, hshape, hdeclared⟩ := hentries m hp
      refine ⟨properties, .tail _ (List.mem_append_right _ ?_), hdeclared⟩
      exact Node.mem_walkAll_modifiers.mpr ⟨_, hmodifier, m, List.mem_singleton_self m, hshape⟩
    · cases hp

namespace Compile

open Reference Schema Visibility

variable {env : Environment} {vis : Visibility} {p q : Progress} {schema fields : Fields}
  {branch after : Fields} {branches afters : List Fields} {n : Scalar} {e : Expression} {levels : Nat}

/-! ## Properties of the schema -/

/-- **The properties of an `allOf` are those of its branches, then its own.** -/
theorem lookup_propertiesOf (hplain : schema.has "$ref" = false)
    (hinline : ∀ b ∈ branches, InlineObject b) (hdistinct : ∀ b ∈ branches, Fields.distinct b = true)
    (hwalk : (schema.value "allOf").walkIfSet = .ok (branches.map .object)) {schemas properties : Fields}
    (h : propertiesOf schemas (.object schema) = .ok properties) (n : Scalar) :
    Fields.lookup n properties = (firstDefinition (branches.map ownProperties) n).or
      (Fields.lookup n (ownProperties schema)) := by
  obtain ⟨bound, hbound⟩ := walkBound_object schemas schema
  rw [propertiesOf, hbound, branchProperties, branchRef?_object schema hplain] at h
  replace h : (do
      let members ← (schema.value "allOf").walkIfSet
      let inherited ← members.foldlM (fun found member => do
        return mergeNew found (← branchProperties schemas (bound + 1) [] member)) []
      let own ← (schema.value "properties").fieldsIfSet
      return mergeNew inherited own : Except Fault Fields) = .ok properties := h
  rw [hwalk] at h
  obtain ⟨members, hmembers, h⟩ := Outcome.bind_eq_ok.mp h
  cases hmembers
  obtain ⟨inherited, hinherited, h⟩ := Outcome.bind_eq_ok.mp h
  obtain ⟨own, hown, h⟩ := Outcome.bind_eq_ok.mp h
  cases h
  rw [eq_ownProperties hown, lookup_mergeNew]
  -- the members are merged one by one
  have hmerged : ∀ {branches : List Fields} {found inherited : Fields},
      (∀ b ∈ branches, InlineObject b) → (∀ b ∈ branches, Fields.distinct b = true) →
      (branches.map Value.object).foldlM (fun found member => do
        return mergeNew found (← branchProperties schemas (bound + 1) [] member)) found =
          .ok inherited →
      Fields.lookup n inherited =
        (Fields.lookup n found).or (firstDefinition (branches.map ownProperties) n) := by
    intro branches
    induction branches with
    | nil =>
      intro found inherited _ _ h
      cases h
      exact Option.or_none.symm
    | cons branch branches ih =>
      intro found inherited hinline hdistinct h
      obtain ⟨hfirst, hrest⟩ := List.forall_mem_cons.mp hinline
      obtain ⟨hfirst', hrest'⟩ := List.forall_mem_cons.mp hdistinct
      rw [List.map_cons, List.foldlM_cons] at h
      obtain ⟨next, hnext, h⟩ := Outcome.bind_eq_ok.mp h
      obtain ⟨more, hmore, hnext⟩ := Outcome.bind_eq_ok.mp hnext
      cases hnext
      rw [ih hrest hrest' h, lookup_mergeNew, hfirst.branchProperties_eq hfirst' hmore, Option.or_assoc,
        List.map_cons, firstDefinition_cons]
  rw [hmerged hinline hdistinct hinherited]
  rfl

/-! ## What is visible of the branches -/

/-- What filtering leaves of an inline object is one. -/
theorem InlineObject.filtered (h : InlineObject branch) (hafter : Filtered vis branch after) :
    InlineObject after := by
  refine ⟨(hafter.value (by decide) (by decide)).trans h.typed, fun k hk => ?_⟩
  have hne : k ≠ "required" := by
    rintro rfl
    exact absurd hk (by decide)
  rw [hafter.has hne]
  exact h.plain k hk

/-- Filtering leaves the visible properties of an object. -/
theorem lookup_filtered (hdistinct : Fields.distinct branch = true)
    (hafter : Filtered vis branch after) (n : Scalar) :
    (Fields.lookup n (ownProperties after) = none ∧
        (Fields.lookup n (ownProperties branch)).filter vis.shows = none) ∨
      ∃ d d', Fields.lookup n (ownProperties after) = some d' ∧
        Fields.lookup n (ownProperties branch) = some d ∧ vis.shows d = true ∧
        vis.shows d' = true := by
  have hapart : Apart (ownProperties branch) :=
    (Fields.distinct_iff.mp (distinct_ownProperties hdistinct)).2
  cases hafter with
  | plain undeclared inside =>
    have hnone : ownProperties after = [] := ownProperties_of_not_object fun properties hvalue => by
      rw [value_properties_of_not_object inside undeclared] at hvalue
      exact undeclared properties hvalue
    rw [hnone, ownProperties_of_not_object undeclared]
    exact Or.inl ⟨rfl, rfl⟩
  | @declared filtered properties kept entries inside before after visible walked names =>
    have hproperties : ownProperties branch = properties := ownProperties_of_object before
    rw [ownProperties_of_object (by rw [value_withRequired (by decide), after]), hproperties]
    rw [hproperties] at hapart
    rw [← Fields.lookup_filter hapart]
    rcases Fields.lookup_forall₂ (P := fun v v' => vis.filterSchema v = .ok v')
        (forall₂_of_filterVisible visible) n with ⟨hnone, hnone'⟩ | ⟨v, v', hv, hv', hfilter⟩
    · exact Or.inl ⟨hnone', hnone⟩
    · rw [Fields.lookup_filter hapart, Option.filter_eq_some_iff] at hv
      exact Or.inr ⟨v, v', hv', hv.1, hv.2, (shows_filterSchema hfilter).trans hv.2⟩

/-- A name whose first definition is visible keeps a visible one. -/
theorem firstDefinition_filtered (n : Scalar) : ∀ {branches afters : List Fields},
    List.Forall₂ (Filtered vis) branches afters → (∀ b ∈ branches, Fields.distinct b = true) →
    (firstDefinition (branches.map ownProperties) n = none →
      firstDefinition (afters.map ownProperties) n = none) ∧
    ∀ d, firstDefinition (branches.map ownProperties) n = some d → vis.shows d = true →
      ∃ d', firstDefinition (afters.map ownProperties) n = some d' ∧ vis.shows d' = true
  | [], _, .nil, _ => ⟨fun _ => rfl, nofun⟩
  | branch :: branches, _, List.Forall₂.cons hafter hafters, hdistinct => by
    obtain ⟨hfirst, hrest⟩ := List.forall_mem_cons.mp hdistinct
    obtain ⟨hundeclared, hdeclared⟩ := firstDefinition_filtered n hafters hrest
    rw [List.map_cons, List.map_cons, firstDefinition_cons, firstDefinition_cons]
    rcases lookup_filtered hfirst hafter n with ⟨hnone, hhidden⟩ | ⟨d, d', hd', hd, hshown, hshown'⟩
    · rw [hnone, Option.none_or]
      cases hd : Fields.lookup n (ownProperties branch) with
      | none => exact ⟨hundeclared, hdeclared⟩
      | some d =>
        refine ⟨nofun, ?_⟩
        rintro _ ⟨⟩ hshown
        rw [hd, Option.filter_some, if_pos hshown] at hhidden
        cases hhidden
    · rw [hd, hd']
      exact ⟨nofun, fun _ _ _ => ⟨d', rfl, hshown'⟩⟩

theorem exists_objects_of_filteredAll : ∀ {branches : List Fields} {left : List Value},
    (∀ b ∈ branches, InlineObject b) → FilteredAll vis (branches.map .object) left →
    ∃ afters : List Fields, left = afters.map .object ∧ List.Forall₂ (Filtered vis) branches afters
  | [], _, _, .nil => ⟨[], rfl, .nil⟩
  | _ :: _, _, hinline, .cons hleft hlefts => by
    obtain ⟨hfirst, hrest⟩ := List.forall_mem_cons.mp hinline
    obtain ⟨after, rfl, hafter⟩ := (filterSchema_object (hfirst.not_has (by decide))).mp hleft
    obtain ⟨afters, rfl, hafters⟩ := exists_objects_of_filteredAll hrest hlefts
    exact ⟨after :: afters, rfl, .cons hafter hafters⟩

/-- **An `allOf` of inline objects is still one if only a part of it is visible**: of each branch
there is what filtering leaves of it, or the branch as it was. -/
theorem classify_visible_allOf (hfields : visibleFields env schema = .ok fields)
    (hform : classify schema = .ok (.allOf (branches.map .object)))
    (hinline : ∀ b ∈ branches, InlineObject b) :
    ∃ afters : List Fields, classify fields = .ok (.allOf (afters.map .object)) ∧
      (afters = branches ∨ List.Forall₂ (Filtered env.context.visibility) branches afters) := by
  obtain ⟨value, held, walked⟩ := walk_of_classify_allOf hform
  obtain ⟨form, hform', hsame⟩ := classify_visibleFields hfields hform rfl
  cases hsame with
  | @allOf _ left _ =>
    obtain ⟨value', held', walked'⟩ := walk_of_classify_allOf hform'
    rcases get?_visibleFields hfields (k := "allOf") (by decide) with
      ⟨hnone, -⟩ | ⟨v, v', hv, hv', hfiltered⟩
    · rw [held] at hnone
      cases hnone
    rw [held] at hv
    rw [held'] at hv'
    cases hv
    cases hv'
    rcases hfiltered with rfl | hfiltered
    · rw [walked] at walked'
      cases walked'
      exact ⟨branches, hform', Or.inl rfl⟩
    · have hpaired := walk_filterBranches_paired hfiltered
      rw [walked, walked'] at hpaired
      cases hpaired with
      | ok hall =>
        obtain ⟨afters, rfl, hafters⟩ := exists_objects_of_filteredAll hinline hall
        exact ⟨afters, hform', Or.inr hafters⟩

/-- Inline branches of which only a part is visible are inline objects as well, and show what was
visible by its first definition. -/
theorem visible_branches (hcases : afters = branches ∨ List.Forall₂ (Filtered vis) branches afters)
    (hinline : ∀ b ∈ branches, InlineObject b) (hdistinct : ∀ b ∈ branches, Fields.distinct b = true)
    (n : Scalar) :
    (∀ b ∈ afters, InlineObject b) ∧
      (firstDefinition (branches.map ownProperties) n = none →
        firstDefinition (afters.map ownProperties) n = none) ∧
      ∀ d, firstDefinition (branches.map ownProperties) n = some d → vis.shows d = true →
        ∃ d', firstDefinition (afters.map ownProperties) n = some d' ∧ vis.shows d' = true := by
  rcases hcases with rfl | hfiltered
  · exact ⟨hinline, id, fun d hd hshown => ⟨d, hd, hshown⟩⟩
  · refine ⟨fun after hafter => ?_, firstDefinition_filtered n hfiltered hdistinct⟩
    obtain ⟨b, hb, hafter⟩ := Outcome.exists_left_of_mem hfiltered hafter
    exact (hinline b hb).filtered hafter

/-! ## The composition -/

/-- The branches of a composition have names as distinct as the composition. -/
theorem distinct_branches (hform : classify schema = .ok (.allOf (branches.map .object)))
    (hdistinct : Fields.distinct schema = true) : ∀ b ∈ branches, Fields.distinct b = true :=
  fun b hb => Value.distinct_walk (Fields.distinct_value hdistinct "allOf") (walk_value_allOf hform)
    (.object b) (List.mem_map_of_mem hb)

/-- They are named by texts if the composition is. -/
theorem textNamed_branches (hform : classify schema = .ok (.allOf (branches.map .object)))
    (hnamed : Fields.textNamed schema = true) : ∀ b ∈ branches, Fields.textNamed b = true :=
  fun b hb => Value.textNamed_walk (Fields.textNamed_value hnamed "allOf") (walk_value_allOf hform)
    (.object b) (List.mem_map_of_mem hb)

/-- **An `allOf` of inline objects holds the names whose first definition is visible.** -/
theorem exists_entry_iff {nullable : Bool} (hfirst : ∀ first ∈ branches.head?, Answerable env p first)
    (hinline : ∀ b ∈ branches, InlineObject b) (hdistinct : ∀ b ∈ branches, Fields.distinct b = true)
    (h : (compileAllOf env (within env (compileReference env) levels) (branches.map .object)
      nullable).run p = (.ok e, q)) (n : Scalar) :
    (∃ entry, e.held? n = some entry) ↔
      ∃ d, firstDefinition (branches.map ownProperties) n = some d ∧
        env.context.visibility.shows d = true := by
  match branches with
  | [] =>
    obtain ⟨scan, -, h⟩ := run_liftBind_eq_ok h
    obtain ⟨_, p₁, -, h⟩ := run_bind_eq_ok h
    cases h
  | [branch] =>
    obtain ⟨e₁, p₁, hbranch, h⟩ := run_bind_eq_ok h
    cases h
    obtain ⟨-, hadds⟩ := (hinline branch List.mem_cons_self).answered
      (hdistinct branch List.mem_cons_self) (hfirst branch rfl) False.elim (.refl _) rfl hbranch
    rw [Expression.held?_of_entries (Expression.entries_nullableIf e₁ nullable), List.map_singleton,
      firstDefinition_singleton]
    replace hadds := hadds n
    generalize e₁.held? n = added at hadds ⊢
    cases hadds with
    | nothing hidden =>
      refine iff_of_false (by simp) ?_
      rintro ⟨d, hd, hshown⟩
      cases hidden d hd hshown
    | entry hd hshown => exact ⟨fun _ => ⟨_, hd, hshown⟩, fun _ => ⟨_, rfl⟩⟩
  | first :: second :: rest =>
    obtain ⟨-, -, -, -, heffective⟩ := effective_compileAllOf (by simp) hinline hdistinct hfirst
      (fun _ _ => False.elim) h
    have hentry := heffective n
    generalize e.held? n = found at hentry ⊢
    cases hentry with
    | undeclared first =>
      refine iff_of_false (by simp) ?_
      rintro ⟨d, hd, -⟩
      rw [first] at hd
      cases hd
    | hidden first hidden =>
      refine iff_of_false (by simp) ?_
      rintro ⟨d, hd, hshown⟩
      rw [first] at hd
      cases hd
      rw [hidden] at hshown
      cases hshown
    | shown first shown => exact ⟨fun _ => ⟨_, first, shown⟩, fun _ => ⟨_, rfl⟩⟩

/-- **Of the visible properties of a schema, those that a branch of its `allOf` declares are in the
compiled tree, and those that only the schema itself declares are not among its entries.** The first
branch may be answered from the cache, if that holds what the generator filed. -/
theorem branch_properties_kept {top flag : Bool}
    (hanswers : p.session.name.isSome = true ∨
      Fields.textNamed schema = true ∧ p.caches.schemas.All (Filed env))
    (hdistinct : Fields.distinct schema = true)
    (hform : classify schema = .ok (.allOf (branches.map .object)))
    (hinline : ∀ b ∈ branches, InlineObject b)
    (h : (compileWithin env (compileReference env) top flag levels (.object schema)).run p =
      (.ok e, q)) {properties : Fields}
    (hproperties : propertiesOf env.schemas (.object schema) = .ok properties) {d : Value}
    (hd : Fields.lookup n properties = some d) (hshown : env.context.visibility.shows d = true) :
    ((∃ b ∈ branches, (Fields.lookup n (ownProperties b)).isSome = true) →
      ∃ shape, .shape shape ∈ e.toNode.walk ∧ ∃ entry ∈ shape, entry.name.same n = true) ∧
    ((∀ b ∈ branches, Fields.lookup n (ownProperties b) = none) → e.held? n = none) := by
  obtain ⟨value, held, -⟩ := walk_of_classify_allOf hform
  have hall := distinct_branches hform hdistinct
  -- what the branches declare comes first among the properties of the schema
  rw [lookup_propertiesOf (has_ref_of_classify_allOf hform) hinline hall
    (walkIfSet_of_walk (walk_value_allOf hform)) hproperties] at hd
  obtain ⟨levels', r, hfields, -⟩ :=
    run_compileWithin_uncached (k := "allOf") (by decide) (Fields.has_of_get? held) h
  obtain ⟨fields, hvisible, hfields⟩ := run_liftBind_eq_ok hfields
  obtain ⟨form, hform', hfields⟩ := run_liftBind_eq_ok hfields
  obtain ⟨afters, hafters, hcases⟩ := classify_visible_allOf hvisible hform hinline
  rw [hafters] at hform'
  cases hform'
  obtain ⟨e₁, p₁, hallOf, hchecked⟩ := run_bind_eq_ok hfields
  have hentries : e.held? n = e₁.held? n :=
    Expression.held?_of_entries (dresses_checkUnevaluated _ _ _ hchecked).entries n
  obtain ⟨htexts, hdistincts⟩ := names_visibleFields hvisible
  have hall' := distinct_branches hafters (hdistincts hdistinct)
  have hfirst : ∀ first ∈ afters.head?, Answerable env p.deeper first := fun first hmem =>
    hanswers.imp Or.inl fun ⟨hnamed, hfiled⟩ =>
      ⟨textNamed_branches hafters (htexts hnamed) first (List.mem_of_mem_head? hmem), hfiled⟩
  obtain ⟨hinline', hundeclared, hdeclared⟩ := visible_branches hcases hinline hall n
  have hentry := exists_entry_iff hfirst hinline' hall' hallOf n
  rw [hentries]
  constructor
  · rintro ⟨b, hb, hdeclares⟩
    have hfirst : firstDefinition (branches.map ownProperties) n = some d := by
      cases hfirst : firstDefinition (branches.map ownProperties) n with
      | none =>
        have hnone := firstDefinition_eq_none_iff.mp hfirst _ (List.mem_map_of_mem hb)
        rw [hnone] at hdeclares
        cases hdeclares
      | some d' => rwa [hfirst, Option.some_or] at hd
    obtain ⟨entry, hentry⟩ := hentry.mpr (hdeclared d hfirst hshown)
    exact Expression.exists_shape_of_held? (hentries.trans hentry)
  · intro hnone
    have hfirst : firstDefinition (branches.map ownProperties) n = none :=
      firstDefinition_eq_none_iff.mpr (List.forall_mem_map.mpr hnone)
    refine Option.eq_none_iff_forall_ne_some.mpr fun entry hsome => ?_
    obtain ⟨d', hd', -⟩ := hentry.mp ⟨entry, hsome⟩
    rw [hundeclared hfirst] at hd'
    cases hd'

/-- A composition that repeats a property of a branch and adds a note of its own. -/
def annotated : Fields :=
  let text : Fields := [(.text "type", .text "string")]
  let object (name : String) : Value := .object [(.text "type", .text "object"),
    (.text "properties", .object [(.text name, .object text)])]
  [(.text "allOf", .list [object "id", object "title"]),
   (.text "properties", .object [(.text "id", .object text), (.text "note", .object text)])]

theorem branch_properties_kept_annotated :
    ∃ env p e q, Environment.ofConfig {} [] = .ok env ∧ p.session.name = some "Annotated" ∧
      (compileWithin env (compileReference env) true false 3 (.object annotated)).run p = (.ok e, q) ∧
      (∃ shape, .shape shape ∈ e.toNode.walk ∧ ∃ entry ∈ shape, entry.name.same (.text "id") = true) ∧
      e.held? (.text "note") = none := by
  obtain ⟨env, henv, hproperties, hgives⟩ : ∃ env, Environment.ofConfig {} [] = .ok env ∧
      (propertiesOf env.schemas (.object annotated)).toOption.map (fun properties =>
        [Fields.lookup (.text "id") properties, Fields.lookup (.text "note") properties]) =
        some [some (.object [(.text "type", .text "string")]),
          some (.object [(.text "type", .text "string")])] ∧
      ((compileWithin env (compileReference env) true false 3 (.object annotated)).run
        ⟨{ name := some "Annotated" }, env.caches, []⟩).1.toOption.isSome = true :=
    ⟨_, rfl, by decide +kernel, by decide +kernel⟩
  obtain ⟨properties, hproperties, hlookups⟩ := Option.map_eq_some_iff.mp hproperties
  rw [Outcome.toOption_eq_some] at hproperties
  obtain ⟨hid, hlookups⟩ := List.cons.inj hlookups
  obtain ⟨hnote, -⟩ := List.cons.inj hlookups
  obtain ⟨e, hrun⟩ := Option.isSome_iff_exists.mp hgives
  rw [Outcome.toOption_eq_some] at hrun
  let object (name : String) : Fields := [(.text "type", .text "object"),
    (.text "properties", .object [(.text name, .object [(.text "type", .text "string")])])]
  have hinline : ∀ b ∈ [object "id", object "title"], InlineObject b := by
    simp only [List.forall_mem_cons, List.not_mem_nil, false_implies, implies_true, and_true]
    exact ⟨⟨rfl, by decide⟩, ⟨rfl, by decide⟩⟩
  have hshown : env.context.visibility.shows (.object [(.text "type", .text "string")]) = true := by
    cases env.context.visibility <;> rfl
  refine ⟨env, _, e, _, henv, rfl, Prod.ext hrun rfl, ?_, ?_⟩
  · exact (branch_properties_kept (Or.inl rfl) (by decide) rfl hinline (Prod.ext hrun rfl) hproperties hid
      hshown).1 ⟨object "id", .head _, rfl⟩
  · exact (branch_properties_kept (Or.inl rfl) (by decide) rfl hinline (Prod.ext hrun rfl) hproperties hnote
      hshown).2 (by decide)

/-- The note is a visible property of the schema, and nowhere in the compiled tree. -/
theorem own_property_lost :
    ∃ env p e q properties d, Environment.ofConfig {} [] = .ok env ∧
      (compileSchema env (.object annotated) true false).run p = (.ok e, q) ∧
      propertiesOf env.schemas (.object annotated) = .ok properties ∧
      Fields.lookup (.text "note") properties = some d ∧ env.context.visibility.shows d = true ∧
      ∀ shape, .shape shape ∈ e.toNode.walk → ∀ entry ∈ shape, entry.name.same (.text "note") = false := by
  obtain ⟨env, henv, hproperties, hgives⟩ : ∃ env, Environment.ofConfig {} [] = .ok env ∧
      (propertiesOf env.schemas (.object annotated)).toOption.map (Fields.lookup (.text "note")) =
        some (some (.object [(.text "type", .text "string")])) ∧
      ((compileSchema env (.object annotated) true false).run
        ⟨{ name := some "Annotated" }, env.caches, []⟩).1.toOption.map (fun e =>
          declaredNames e.toNode) = some [.text "id", .text "title"] :=
    ⟨_, rfl, by decide +kernel, by decide +kernel⟩
  obtain ⟨properties, hproperties, hnote⟩ := Option.map_eq_some_iff.mp hproperties
  rw [Outcome.toOption_eq_some] at hproperties
  obtain ⟨e, hrun, hnames⟩ := Option.map_eq_some_iff.mp hgives
  rw [Outcome.toOption_eq_some] at hrun
  refine ⟨env, _, e, _, properties, _, henv, Prod.ext hrun rfl, hproperties, hnote,
    by cases env.context.visibility <;> rfl, fun shape hshape entry hentry => ?_⟩
  have hdeclared : entry.name ∈ declaredNames e.toNode :=
    List.mem_flatMap.mpr ⟨_, hshape, List.mem_map_of_mem hentry⟩
  have hothers : ∀ k ∈ [Scalar.text "id", .text "title"], k.same (.text "note") = false := by decide
  rw [hnames] at hdeclared
  exact hothers _ hdeclared

end Compile

end SchemaForge
