import SchemaForge.Proofs.Compile.Filtering

/-!
# Filtered branches

An `allOf` composition compiles a branch as a whole or as the shape that it adds, and a branch may
have to lose properties first. Neither tells a branch from what filtering leaves of it: a shape shows
visible properties only, and it does not matter whether properties are lost before filtering or
afterwards.
-/

namespace SchemaForge.Compile

open Reference Visibility

variable {env : Environment} {vis : Visibility} {branch filtered reduced reduced' : Fields}
  {omitted : List Scalar} {properties kept : Fields} {entries : List Value}

/-! ## Losing properties -/

/-- Whether a property stays where some are lost. -/
def spares (omitted : List Scalar) (f : Scalar × Value) : Bool := !omitted.any (·.same f.1)

/-- Whether a required entry stays where some properties are lost. -/
def sparesEntry (omitted : List Scalar) (entry : Value) : Bool :=
  !omitted.any fun n => entry.same (.scalar n)

theorem walkIfSet_of_walk {v : Value} (h : v.walk = .ok entries) : v.walkIfSet = .ok entries := by
  unfold Value.walkIfSet
  split
  · exact h
  · rename_i hset
    cases v with
    | list vs =>
      have hnil : vs = [] := by simpa [Value.isSet] using hset
      cases h
      rw [hnil]
    | object fields =>
      cases h
      have hnil : fields = [] := by simpa [Value.isSet] using hset
      rw [hnil]
      rfl
    | scalar s =>
      cases s with
      | text t =>
        cases h
        have hnil : t = "" := by simpa [Value.isSet] using hset
        rw [hnil]
        rfl
      | _ => cases h

/-- A branch that loses properties has those that stay, and its required entries if it had some. -/
theorem withoutProperties_cases (h : withoutProperties omitted branch = .ok reduced) :
    ∃ properties, (branch.value "properties").fieldsIfSet = .ok properties ∧
      ((branch.get? "required" = none ∧
          reduced = branch.put (.text "properties") (.object (properties.filter (spares omitted)))) ∨
        ∃ required entries, branch.get? "required" = some required ∧ required.walk = .ok entries ∧
          reduced = (branch.put (.text "properties")
            (.object (properties.filter (spares omitted)))).put (.text "required")
              (.list (entries.filter (sparesEntry omitted)))) := by
  obtain ⟨properties, hproperties, h⟩ := Outcome.bind_eq_ok.mp h
  refine ⟨properties, hproperties, ?_⟩
  dsimp only at h
  split at h
  · rename_i hnone
    cases h
    exact Or.inl ⟨hnone, rfl⟩
  · rename_i required hrequired
    obtain ⟨entries, hwalk, h⟩ := Outcome.bind_eq_ok.mp h
    cases h
    exact Or.inr ⟨required, entries, hrequired, hwalk, rfl⟩

theorem textNamed_withoutProperties (h : Fields.textNamed branch = true)
    (hreduced : withoutProperties omitted branch = .ok reduced) : Fields.textNamed reduced = true := by
  have hput : ∀ {properties : Fields}, (branch.value "properties").fieldsIfSet = .ok properties →
      Fields.textNamed (branch.put (.text "properties")
        (.object (properties.filter (spares omitted)))) = true := by
    intro properties hproperties
    refine Fields.textNamed_put h _ (Fields.textNamed_iff.mpr fun f hf => ?_)
    have hvalue := Fields.textNamed_value h "properties"
    rcases Value.fieldsIfSet_eq_ok hproperties with rfl | hobject
    · cases hf
    · rw [hobject] at hvalue
      exact Fields.textNamed_iff.mp hvalue f (List.mem_of_mem_filter hf)
  obtain ⟨properties, hproperties, ⟨-, rfl⟩ | ⟨required, entries, hheld, hwalk, rfl⟩⟩ :=
    withoutProperties_cases hreduced
  · exact hput hproperties
  · refine Fields.textNamed_put (hput hproperties) _ (Value.textNamedAll_iff.mpr fun entry hentry => ?_)
    have hrequired := Fields.textNamed_value h "required"
    rw [Fields.value_of_get? hheld] at hrequired
    exact Value.textNamed_walk hrequired hwalk entry (List.mem_of_mem_filter hentry)

theorem filterVisible_spares (h : vis.filterVisible properties = .ok kept) :
    vis.filterVisible (properties.filter (spares omitted)) = .ok (kept.filter (spares omitted)) := by
  refine filterVisible_of_forall₂ ?_
  rw [List.filter_filter]
  have hcomm : (properties.filter fun f => vis.shows f.2 && spares omitted f) =
      (properties.filter fun f => vis.shows f.2).filter (spares omitted) := by
    rw [List.filter_filter]
    exact List.filter_congr fun f _ => Bool.and_comm _ _
  rw [hcomm]
  refine List.rel_filter ?_ (forall₂_of_filterVisible h)
  rintro ⟨name, v⟩ ⟨name', v'⟩ ⟨hname, -⟩
  dsimp only at hname
  subst hname
  rfl

/-- **What is visible of a branch that lost properties.** -/
theorem filtered_withoutProperties (hreduced : withoutProperties omitted branch = .ok reduced)
    (hfields : vis.filterFields branch = .ok filtered)
    (hproperties : branch.value "properties" = .object properties)
    (hkept : vis.filterVisible properties = .ok kept)
    (hwalk : (branch.value "required").walkIfSet = .ok entries)
    (hnames : ∀ entry ∈ entries, ∃ name, entry = .scalar name) :
    Filtered vis reduced (withRequired
      (filtered.put (.text "properties") (.object (kept.filter (spares omitted))))
      ((entries.filter (sparesEntry omitted)).filter
        (remains (properties.filter (spares omitted)) (kept.filter (spares omitted))))) := by
  have hvalue : filterValue vis (.text "properties") (.object (properties.filter (spares omitted))) =
      .ok (.object (kept.filter (spares omitted))) := by
    show vis.filterProperties _ = _
    rw [filterProperties, filterVisible_spares hkept]
    rfl
  have hput := filterFields_put hfields hvalue
  have hspared : ∀ entry ∈ entries.filter (sparesEntry omitted), ∃ name, entry = .scalar name :=
    fun entry hentry => hnames entry (List.mem_of_mem_filter hentry)
  obtain ⟨properties', hproperties', hcases⟩ := withoutProperties_cases hreduced
  obtain rfl : properties' = properties := by
    rw [hproperties] at hproperties'
    rcases Value.fieldsIfSet_eq_ok hproperties' with rfl | h
    · cases properties with
      | nil => rfl
      | cons f fs => cases hproperties'
    · cases h
      rfl
  rcases hcases with ⟨hnone, rfl⟩ | ⟨required, entries', hrequired, hwalk', rfl⟩
  · have hentries : entries = [] := by
      rw [Fields.value, hnone] at hwalk
      cases hwalk
      rfl
    subst hentries
    refine .declared hput (Fields.value_put_self _ _ _) (Fields.value_put_self _ _ _)
      (filterVisible_spares hkept) ?_ hspared
    rw [Fields.value_put_of_ne (by decide), hwalk]
    rfl
  · obtain rfl : entries' = entries := by
      rw [Fields.value_of_get? hrequired, walkIfSet_of_walk hwalk'] at hwalk
      cases hwalk
      rfl
    have hvalue : ∀ (fields left : Fields), ((fields.put (.text "properties") (.object left)).put
        (.text "required") (.list (entries'.filter (sparesEntry omitted)))).value "properties" =
        .object left := by
      intro fields left
      rw [Fields.value_put_of_ne (by decide), Fields.value_put_self]
    have hdeclared := Filtered.declared
      (filterFields_put_of_keyword (k := "required") hput (by decide)
        (.list (entries'.filter (sparesEntry omitted))))
      (hvalue _ _) (hvalue _ _) (filterVisible_spares hkept)
      (walkIfSet_of_walk (by rw [Fields.value_put_self]; rfl)) hspared
    rwa [withRequired_put] at hdeclared

/-! ## Before filtering or afterwards -/

theorem withRequired_put_properties (h : filtered.has "properties" = true) (left : List Value)
    (v : Value) : (withRequired filtered left).put (.text "properties") v =
      withRequired (filtered.put (.text "properties") v) left := by
  unfold withRequired
  split
  · exact (Fields.erase_put_of_ne (by decide) _ _).symm
  · exact Fields.put_comm (by decide) h _ _

/-- A spared entry among named properties: it is declared if it was before some were lost. -/
theorem hasName_spares (hnamed : ∀ f ∈ properties, ∃ t, f.1 = .text t) {name : Scalar}
    (hspared : sparesEntry omitted (.scalar name) = true) :
    Fields.hasName (properties.filter (spares omitted)) name = properties.hasName name := by
  have hnamed' : ∀ f ∈ properties.filter (spares omitted), ∃ t, f.1 = .text t :=
    fun f hf => hnamed f (List.mem_of_mem_filter hf)
  rw [Bool.eq_iff_iff, Fields.hasName_iff_of_textNamed hnamed',
    Fields.hasName_iff_of_textNamed hnamed]
  constructor
  · intro h
    obtain ⟨f, hf, rfl⟩ := List.mem_map.mp h
    exact List.mem_map_of_mem (List.mem_of_mem_filter hf)
  · intro h
    obtain ⟨f, hf, rfl⟩ := List.mem_map.mp h
    refine List.mem_map_of_mem (List.mem_filter.mpr ⟨hf, ?_⟩)
    obtain ⟨t, ht⟩ := hnamed f hf
    -- a name that is the same as a text is that text, so an entry is spared with its property
    have hsame : ∀ n : Scalar, n.same f.1 = (Value.scalar f.1).same (.scalar n) := by
      intro n
      rw [ht, Value.same, Scalar.same_text, Scalar.text_same]
    simpa only [spares, sparesEntry, hsame] using hspared

theorem filter_remains_spares (hnames : ∀ entry ∈ entries, ∃ name, entry = .scalar name)
    (hproperties : ∀ f ∈ properties, ∃ t, f.1 = .text t) (hkept : ∀ f ∈ kept, ∃ t, f.1 = .text t) :
    (entries.filter (sparesEntry omitted)).filter
        (remains (properties.filter (spares omitted)) (kept.filter (spares omitted))) =
      (entries.filter (remains properties kept)).filter (sparesEntry omitted) := by
  rw [List.filter_filter, List.filter_filter]
  refine List.filter_congr fun entry hentry => ?_
  obtain ⟨name, rfl⟩ := hnames entry hentry
  cases hspared : sparesEntry omitted (.scalar name) with
  | false => simp
  | true => simp [remains, hasName_spares hproperties hspared, hasName_spares hkept hspared]

theorem adjustRequired_congr {before before' after : Fields}
    (hproperties : before'.value "properties" = before.value "properties")
    (hrequired : before'.value "required" = before.value "required") :
    adjustRequired before' after = adjustRequired before after := by
  unfold adjustRequired
  rw [hproperties, hrequired]

/-- Where nothing is declared, the same is put in place of the properties before and after. -/
theorem filterFields_withoutProperties
    (hundeclared : ∀ properties, branch.value "properties" ≠ .object properties)
    (hfields : vis.filterFields branch = .ok filtered)
    (hreduced : withoutProperties omitted branch = .ok reduced)
    (hreduced' : withoutProperties omitted filtered = .ok reduced') :
    vis.filterFields reduced = .ok reduced' ∧
      reduced'.value "properties" = reduced.value "properties" ∧
      reduced'.value "required" = reduced.value "required" := by
  have hempty : ∀ {properties}, (branch.value "properties").fieldsIfSet = .ok properties →
      properties = [] :=
    fun h => (Value.fieldsIfSet_eq_ok h).resolve_right (hundeclared _)
  have hvalue : filterValue vis (.text "properties") (.object []) = .ok (.object []) := rfl
  have hput := filterFields_put hfields hvalue
  have hrequired := get?_filterFields_of_keyword (k := "required") hfields (by decide)
  obtain ⟨properties, hproperties, hcases⟩ := withoutProperties_cases hreduced
  obtain ⟨properties', hproperties', hcases'⟩ := withoutProperties_cases hreduced'
  rw [value_properties_of_not_object hfields hundeclared] at hproperties'
  obtain rfl := hempty hproperties
  obtain rfl := hempty hproperties'
  rw [hrequired] at hcases'
  rcases hcases with ⟨hnone, rfl⟩ | ⟨required, entries, hheld, hwalk, rfl⟩
  · rcases hcases' with ⟨-, rfl⟩ | ⟨required', entries', hheld', -, -⟩
    · refine ⟨hput, ?_, ?_⟩
      · rw [Fields.value_put_self, Fields.value_put_self]
      · rw [Fields.value_put_of_ne (by decide), Fields.value_put_of_ne (by decide), Fields.value,
          hrequired]
        rfl
    · rw [hnone] at hheld'
      cases hheld'
  · rcases hcases' with ⟨hnone, -⟩ | ⟨required', entries', hheld', hwalk', rfl⟩
    · rw [hheld] at hnone
      cases hnone
    · rw [hheld] at hheld'
      cases hheld'
      rw [hwalk] at hwalk'
      cases hwalk'
      refine ⟨filterFields_put_of_keyword hput (by decide) _, ?_, ?_⟩
      · rw [Fields.value_put_of_ne (by decide), Fields.value_put_self,
          Fields.value_put_of_ne (by decide), Fields.value_put_self]
      · rw [Fields.value_put_self, Fields.value_put_self]

theorem has_withoutProperties {k : String} (hreduced : withoutProperties omitted branch = .ok reduced)
    (hk : k ∉ ["properties", "required"]) : reduced.has k = branch.has k := by
  unfold Fields.has
  rw [get?_withoutProperties hreduced hk]

/-- **Properties may be lost before filtering or afterwards.** -/
theorem filterSchema_withoutProperties {after : Fields} (h : Filtered vis branch after)
    (href : branch.has "$ref" = false) (htext : Fields.textNamed branch = true)
    (hreduced : withoutProperties omitted branch = .ok reduced)
    (hreduced' : withoutProperties omitted after = .ok reduced') :
    vis.filterSchema (.object reduced') = vis.filterSchema (.object reduced) := by
  have href' : Fields.has reduced "$ref" = false := by
    rw [has_withoutProperties hreduced (by decide), href]
  have href'' : Fields.has reduced' "$ref" = false := by
    rw [has_withoutProperties hreduced' (by decide), h.has (by decide), href]
  have hagain := h.again
  cases h with
  | plain undeclared inside =>
    obtain ⟨hfields, hproperties, hrequired⟩ :=
      filterFields_withoutProperties undeclared inside hreduced hreduced'
    rw [filterSchema_of_not_ref href', filterSchema_of_not_ref href'', hfields,
      (filterFields_stable hfields).again]
    show (adjustRequired reduced' reduced' >>= _) = adjustRequired reduced reduced' >>= _
    rw [adjustRequired_congr hproperties hrequired]
  | @declared filtered properties kept entries inside before after visible walked names =>
    have htexts : ∀ {fields : Fields}, Fields.textNamed fields = true →
        ∀ f ∈ fields, ∃ t, f.1 = .text t := fun h f hf => (Fields.textNamed_iff.mp h f hf).1
    have hproperties : Fields.textNamed properties = true := by
      have hvalue := Fields.textNamed_value htext "properties"
      rwa [before] at hvalue
    have hnamed := htexts hproperties
    have hnamed' := htexts ((filterVisible_stable visible).textNamed hproperties)
    have hleft : ∀ entry ∈ entries.filter (remains properties kept), ∃ name, entry = .scalar name :=
      fun entry hentry => names entry (List.mem_of_mem_filter hentry)
    have hhas : filtered.has "properties" = true := Fields.has_of_value_ne (by rw [after]; nofun)
    have hfirst := filtered_withoutProperties hreduced inside before visible walked names
    have hsecond := filtered_withoutProperties hreduced' hagain
      (by rw [value_withRequired (by decide), after]) (filterVisible_stable visible).again
      (walkIfSet_withRequired _ _) hleft
    -- both leave the entries that are spared and whose properties are visible
    rw [filter_remains_self (fun entry hentry => hleft entry (List.mem_of_mem_filter hentry)),
      withRequired_put_properties hhas, withRequired_withRequired _ _ _ fun hempty => by
        rw [List.isEmpty_iff.mp hempty]
        rfl,
      ← filter_remains_spares names hnamed hnamed'] at hsecond
    rw [(filterSchema_object href').mpr ⟨_, rfl, hfirst⟩]
    exact (filterSchema_object href'').mpr ⟨_, rfl, hsecond⟩

/-! ## Shapes -/

section Shapes

variable {schema after : Fields} {inner : Inner} {names : List Scalar}

theorem mapM_congr {α β γ : Type} {f : α → Compile γ} {g : β → Compile γ} {l : List α} {l' : List β}
    (h : List.Forall₂ (fun x y => f x = g y) l l') : l.mapM f = l'.mapM g := by
  induction h with
  | nil => rfl
  | cons hxy _ ih => rw [List.mapM_cons, List.mapM_cons, hxy, ih]

theorem exists_names (h : ∀ entry ∈ entries, ∃ name, entry = .scalar name) :
    ∃ names : List Scalar, entries = names.map .scalar := by
  induction entries with
  | nil => exact ⟨[], rfl⟩
  | cons entry entries ih =>
    obtain ⟨⟨name, rfl⟩, hrest⟩ := List.forall_mem_cons.mp h
    obtain ⟨names, rfl⟩ := ih hrest
    exact ⟨name :: names, rfl⟩

theorem requiredNames_eq_ok (h : (schema.value "required").walkIfSet = .ok (names.map .scalar)) :
    requiredNames schema = .ok names := by
  rw [requiredNames, h]
  show (names.map Value.scalar).mapM Value.asName = _
  refine Outcome.mapM_of_forall₂ ?_
  rw [List.forall₂_map_left_iff, List.forall₂_same]
  exact fun _ _ => rfl

/-- What is required of a property that was kept is not adjusted. -/
theorem any_same_filter {t : String} (h : kept.hasName (.text t) = true) :
    (names.filter fun n => remains properties kept (.scalar n)).any (·.same (.text t)) =
      names.any (·.same (.text t)) := by
  rw [Bool.eq_iff_iff, List.any_eq_true, List.any_eq_true]
  constructor
  · rintro ⟨n, hn, hsame⟩
    exact ⟨n, List.mem_of_mem_filter hn, hsame⟩
  · rintro ⟨n, hn, hsame⟩
    refine ⟨n, List.mem_filter.mpr ⟨hn, ?_⟩, hsame⟩
    rw [Scalar.same_text, beq_iff_eq] at hsame
    subst hsame
    simp [remains, h]

theorem fieldsIfSet_object (fields : Fields) : (Value.object fields).fieldsIfSet = .ok fields := by
  cases fields <;> rfl

/-- The shape of a schema, given its properties and the names of those that are required. -/
theorem compileShape_declared {required : List Scalar}
    (hproperties : schema.value "properties" = .object properties)
    (hrequired : (schema.value "required").walkIfSet = .ok (required.map .scalar)) :
    compileShape env inner false schema = (do
      let compiled ← (properties.filter fun f => env.context.visibility.shows f.2).mapM fun f =>
        compileProperty env inner required false f.1 f.2
      return .shape compiled) := by
  unfold compileShape
  rw [requiredNames_eq_ok hrequired, hproperties, fieldsIfSet_object]
  rfl

/-- Each property that is shown compiles to the same as what filtering leaves of it. -/
def PropertiesAlike (env : Environment) (inner : Inner) (schema : Fields) : Prop :=
  ∀ properties, schema.value "properties" = .object properties → ∀ f ∈ properties,
    env.context.visibility.shows f.2 = true →
    ∀ v', env.context.visibility.filterSchema f.2 = .ok v' → inner v' false = inner f.2 false

/-- **Filtering a schema does not change the shape that it adds.** -/
theorem compileShape_filtered (h : Filtered env.context.visibility schema after)
    (htext : Fields.textNamed schema = true)
    (hinner : PropertiesAlike env inner schema) :
    compileShape env inner false after = compileShape env inner false schema := by
  cases h with
  | plain undeclared inside =>
    unfold compileShape requiredNames
    rw [value_properties_of_not_object inside undeclared, value_filterFields (by decide) inside]
  | @declared filtered properties kept entries inside before afterwards visible walked names =>
    obtain ⟨required, rfl⟩ := exists_names names
    have hkept : (withRequired filtered ((required.map Value.scalar).filter
        (remains properties kept))).value "properties" = .object kept := by
      rw [value_withRequired (by decide), afterwards]
    have hleft : (required.map Value.scalar).filter (remains properties kept) =
        (required.filter fun n => remains properties kept (.scalar n)).map .scalar := by
      rw [List.filter_map]
      rfl
    rw [compileShape_declared before walked, compileShape_declared hkept
      (by rw [walkIfSet_withRequired, hleft])]
    have hall := forall₂_of_filterVisible visible
    have hshown : kept.filter (fun f => env.context.visibility.shows f.2) = kept := by
      refine List.filter_eq_self.mpr fun f hf => ?_
      obtain ⟨f', hf', -, hv⟩ := Outcome.exists_left_of_mem hall hf
      rw [shows_filterSchema hv]
      exact (List.mem_filter.mp hf').2
    have hproperties : Fields.textNamed properties = true := by
      have hvalue := Fields.textNamed_value htext "properties"
      rwa [before] at hvalue
    have hnamed : ∀ f ∈ kept, ∃ t, f.1 = .text t := fun f hf =>
      (Fields.textNamed_iff.mp ((filterVisible_stable visible).textNamed hproperties) f hf).1
    rw [hshown]
    have hsame : kept.mapM (fun f => compileProperty env inner
          (required.filter fun n => remains properties kept (.scalar n)) false f.1 f.2) =
        (properties.filter fun f => env.context.visibility.shows f.2).mapM fun f =>
          compileProperty env inner required false f.1 f.2 := by
      refine mapM_congr ((Outcome.forall₂_mem hall).flip.imp ?_)
      rintro ⟨name, v'⟩ ⟨name', v⟩ ⟨hf, hf', hname, hv⟩
      dsimp only at hname hv
      subst hname
      obtain ⟨hmem, hshows⟩ := List.mem_filter.mp hf
      obtain ⟨t, rfl⟩ : ∃ t, name' = .text t := hnamed _ hf'
      have hhas : kept.hasName (.text t) = true :=
        (Fields.hasName_iff_of_textNamed hnamed _).mpr (List.mem_map_of_mem hf')
      unfold compileProperty
      rw [hinner properties before _ hmem hshows v' hv, any_same_filter hhas]
      rfl
    rw [hsame]

/-- **Nor does it matter for a shape whether properties are lost before filtering or afterwards.** -/
theorem compileShape_withoutProperties
    (h : Filtered env.context.visibility branch after) (href : branch.has "$ref" = false)
    (htext : Fields.textNamed branch = true) (hreduced : withoutProperties omitted branch = .ok reduced)
    (hreduced' : withoutProperties omitted after = .ok reduced')
    (hinner : PropertiesAlike env inner branch) :
    compileShape env inner false reduced' = compileShape env inner false reduced := by
  have hsame := filterSchema_withoutProperties h href htext hreduced hreduced'
  have htext' : Fields.textNamed after = true :=
    (filterSchema_stable ((filterSchema_object href).mpr ⟨_, rfl, h⟩)).textNamed htext
  have href' : Fields.has reduced "$ref" = false := by
    rw [has_withoutProperties hreduced (by decide), href]
  have href'' : Fields.has reduced' "$ref" = false := by
    rw [has_withoutProperties hreduced' (by decide), h.has (by decide), href]
  cases h with
  | plain undeclared inside =>
    obtain ⟨-, hproperties, hrequired⟩ :=
      filterFields_withoutProperties undeclared inside hreduced hreduced'
    unfold compileShape requiredNames
    rw [hproperties, hrequired]
  | @declared filtered properties kept entries inside before afterwards visible walked names =>
    have hfirst := filtered_withoutProperties hreduced inside before visible walked names
    obtain ⟨w, hw, hsecond⟩ :=
      (filterSchema_object href'').mp (hsame.trans ((filterSchema_object href').mpr ⟨_, rfl, hfirst⟩))
    obtain rfl := Value.object.inj hw
    have hproperties : ∀ {fields left properties : Fields},
        withoutProperties omitted fields = .ok left → fields.value "properties" = .object properties →
        ∀ properties', left.value "properties" = .object properties' → ∀ f ∈ properties',
        f ∈ properties := by
      intro fields left properties hleft hfields properties' hvalue f hf
      obtain ⟨declared, hdeclared, hspared⟩ := properties_withoutProperties hleft
      rw [hfields, fieldsIfSet_object] at hdeclared
      cases hdeclared
      rw [hvalue] at hspared
      cases hspared
      exact List.mem_of_mem_filter hf
    rw [← compileShape_filtered hfirst (textNamed_withoutProperties htext hreduced)
        fun properties' hvalue f hf =>
          hinner properties before f (hproperties hreduced before properties' hvalue f hf),
      ← compileShape_filtered hsecond (textNamed_withoutProperties htext' hreduced')]
    -- what was filtered is not changed by the second time
    intro properties' hvalue f hf _ v' hv
    have hmem := hproperties hreduced' (by rw [value_withRequired (by decide), afterwards])
      properties' hvalue f hf
    obtain ⟨f', -, -, hf'⟩ := Outcome.exists_left_of_mem (forall₂_of_filterVisible visible) hmem
    rw [(filterSchema_stable hf').again] at hv
    cases hv
    rfl

end Shapes

end SchemaForge.Compile
