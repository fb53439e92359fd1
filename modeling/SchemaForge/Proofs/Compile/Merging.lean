import SchemaForge.Proofs.Compile.Conflicts
import SchemaForge.Proofs.Compile.FilteredCompositions
import SchemaForge.Proofs.Compile.Shapes

/-!
# Merging inline objects

An `allOf` of inline objects is one object: the first branch, extended by the shapes of the others.
Each later branch leaves out what an earlier one defines otherwise, and repeats what it defines alike.
So what counts for a property is its first definition, and the last branch that repeats it says
whether it is required.
-/

namespace SchemaForge.Compile

open Reference Schema Visibility

variable {env : Environment} {start p q : Progress} {branch reduced : Fields} {n k : Scalar}
  {omitted : List Scalar} {e x : Expression} {levels : Nat} {properties : Fields}
  {branches : List Fields}

/-! ## What an inline object contributes -/

theorem InlineObject.branchRef?_eq (h : InlineObject branch) :
    branchRef? (.object branch) = .ok none :=
  branchRef?_object branch (h.not_has (by decide))

theorem InlineObject.branchSource_eq (h : InlineObject branch) :
    branchSource (.object branch) = .ok "inline" := by
  rw [branchSource, h.branchRef?_eq]
  rfl

/-- An inline object contributes the properties that it declares. -/
theorem InlineObject.branchProperties_eq (h : InlineObject branch)
    (hdistinct : Fields.distinct branch = true) {schemas properties : Fields} {fuel : Nat}
    {seen : List String}
    (hproperties : branchProperties schemas (fuel + 1) seen (.object branch) = .ok properties) :
    properties = ownProperties branch := by
  rw [branchProperties, h.branchRef?_eq] at hproperties
  have hnone : branch.value "allOf" = .null :=
    Fields.value_eq_null (by rw [h.not_has (by decide)]; decide)
  replace hproperties : (do
      let members ← (branch.value "allOf").walkIfSet
      let inherited ← members.foldlM (fun found member => do
        return mergeNew found (← branchProperties schemas fuel seen member)) []
      let own ← (branch.value "properties").fieldsIfSet
      return mergeNew inherited own : Except Fault Fields) = .ok properties := hproperties
  rw [hnone] at hproperties
  obtain ⟨members, hmembers, hproperties⟩ := Outcome.bind_eq_ok.mp hproperties
  cases hmembers
  obtain ⟨inherited, hinherited, hproperties⟩ := Outcome.bind_eq_ok.mp hproperties
  cases hinherited
  obtain ⟨own, hown, hproperties⟩ := Outcome.bind_eq_ok.mp hproperties
  cases hproperties
  rw [eq_ownProperties hown]
  have hapart : Apart ([] ++ ownProperties branch) :=
    (Fields.distinct_iff.mp (distinct_ownProperties hdistinct)).2
  exact mergeNew_of_apart hapart

/-- A walk through an object may take two steps. -/
theorem walkBound_object (schemas fields : Fields) :
    ∃ bound, walkBound schemas (.object fields) = bound + 2 := by
  refine Nat.exists_eq_add_of_le' ?_
  have hsize : 2 ≤ Fields.weight schemas + (Value.object fields).weight + 1 := by
    rw [Value.weight]
    omega
  exact Nat.mul_le_mul hsize (Nat.one_le_of_lt hsize)

theorem InlineObject.propertiesOf_eq (h : InlineObject branch)
    (hdistinct : Fields.distinct branch = true) {schemas : Fields}
    (hproperties : propertiesOf schemas (.object branch) = .ok properties) :
    properties = ownProperties branch := by
  obtain ⟨bound, hbound⟩ := walkBound_object schemas branch
  rw [propertiesOf, hbound] at hproperties
  exact h.branchProperties_eq hdistinct hproperties

/-! ## Adding a branch -/

/-- The properties that a branch shows, apart from those it loses. -/
abbrev sparedProperties (env : Environment) (omitted : List Scalar) (branch : Fields) : Fields :=
  visibleProperties env ((ownProperties branch).filter (spares omitted))

theorem sparedProperties_nil (branch : Fields) :
    sparedProperties env [] branch = visibleProperties env (ownProperties branch) := by
  have hall : (ownProperties branch).filter (spares []) = ownProperties branch :=
    List.filter_eq_self.mpr fun _ _ => rfl
  rw [sparedProperties, hall]

theorem ownProperties_withoutProperties (h : withoutProperties omitted branch = .ok reduced) :
    ownProperties reduced = (ownProperties branch).filter (spares omitted) := by
  obtain ⟨properties, hproperties, ⟨-, rfl⟩ | ⟨required, entries, -, -, rfl⟩⟩ :=
    withoutProperties_cases h
  · rw [← eq_ownProperties hproperties]
    exact ownProperties_of_object (Fields.value_put_self _ _ _)
  · rw [← eq_ownProperties hproperties]
    refine ownProperties_of_object ?_
    rw [Fields.value_put_of_ne (by decide), Fields.value_put_self]

/-- Losing other properties does not change whether a property is required. -/
theorem requires_withoutProperties (h : withoutProperties omitted branch = .ok reduced)
    (hspared : omitted.any (·.same n) = false) : requires reduced n = requires branch n := by
  obtain ⟨properties, -, ⟨hnone, rfl⟩ | ⟨required, entries, hrequired, hwalk, rfl⟩⟩ :=
    withoutProperties_cases h
  · unfold requires
    rw [Fields.value_put_of_ne (by decide)]
  · have hwalk' : (Value.list (entries.filter (sparesEntry omitted))).walkIfSet =
        .ok (entries.filter (sparesEntry omitted)) := walkIfSet_of_walk rfl
    unfold requires
    rw [Fields.value_put_self, hwalk', Fields.value_of_get? hrequired, walkIfSet_of_walk hwalk]
    refine any_filter_entries fun m hm => ?_
    rw [sparesEntry, Bool.not_eq_true']
    refine List.any_eq_false.mpr fun k hk => ?_
    have hsame : (Value.scalar m).same (.scalar k) = m.same k := rfl
    rw [hsame]
    intro hmk
    have hkn : k.same n = true := Scalar.same_trans (Scalar.same_symm hmk) hm
    exact List.any_eq_false.mp hspared k hk hkn

/-- What is spent has no property left. -/
theorem sparedProperties_of_isSpent (h : withoutProperties omitted branch = .ok reduced)
    (hspent : isSpent reduced = true) : sparedProperties env omitted branch = [] := by
  have hunset : (reduced.value "properties").isSet = false := by
    simpa using (Bool.and_eq_true_iff.mp hspent).1
  have hnone : ownProperties reduced = [] := by
    unfold ownProperties
    split
    · rename_i properties hvalue
      rw [hvalue] at hunset
      simpa [Value.isSet] using hunset
    · rfl
  rw [sparedProperties, ← ownProperties_withoutProperties h, hnone]
  rfl

/-- The shape of what is left of an inline object offers its spared properties. -/
theorem offers_of_shape (hleft : reduced = branch ∧ omitted = [] ∨
      withoutProperties omitted branch = .ok reduced) {entries : List Property}
    (hentries : List.Forall₂ (fun f => EntryFor env start (requires reduced f.1) f.1 f.2)
      (visibleProperties env (ownProperties reduced)) entries) :
    List.Forall₂ (Offers env start branch) (sparedProperties env omitted branch) entries := by
  rcases hleft with ⟨rfl, rfl⟩ | hreduced
  · rw [sparedProperties_nil]
    exact hentries.imp fun f entry hentry => ⟨f.2, Or.inl rfl, hentry⟩
  · rw [ownProperties_withoutProperties hreduced] at hentries
    refine (Outcome.forall₂_mem hentries).imp ?_
    rintro f entry ⟨hf, -, hentry⟩
    have hspared : omitted.any (·.same f.1) = false := by
      simpa [spares] using (List.mem_filter.mp (List.mem_filter.mp hf).1).2
    rw [requires_withoutProperties hreduced hspared] at hentry
    exact ⟨f.2, Or.inl rfl, hentry⟩

theorem addReduced_eq {inner : Inner} {m : Merge} (hm : m.extensible = true)
    (href : reduced.has "$ref" = false) (hallOf : reduced.has "allOf" = false) :
    addReduced env inner m omitted (.object reduced) = (do
      let shape ← compileShape env inner false reduced
      return { m with result := m.result.andThen "extend" [shape] }) := by
  unfold addReduced extension
  dsimp only
  rw [if_pos hm, if_neg (by simp [href]), if_neg (by simp [hallOf]), bind_assoc]
  simp only [pure_bind]

/-- What is left of an inline object is none either. -/
theorem InlineObject.reduceBranch_cases (h : InlineObject branch) {left : Option Value}
    (hleft : reduceBranch omitted (.object branch) = .ok left) :
    (omitted = [] ∧ left = some (.object branch)) ∨
      ∃ reduced, withoutProperties omitted branch = .ok reduced ∧
        left = if isSpent reduced then none else some (.object reduced) := by
  rcases reduceBranch_object hleft with ⟨hwhole, hleft⟩ | ⟨-, hreduced⟩
  · rw [h.not_has (by decide), h.not_has (by decide), Bool.or_false, Bool.or_false] at hwhole
    exact Or.inl ⟨List.isEmpty_iff.mp hwhole, hleft⟩
  · exact Or.inr hreduced

/-- The result extended by what a branch offers, in one shape or, if nothing is left of it, in none. -/
structure Extended (env : Environment) (start : Progress) (branch : Fields) (omitted : List Scalar)
    (m m' : Merge) (shapes : List (List Property)) : Prop where
  offers : List.Forall₂ (Offers env start branch) (sparedProperties env omitted branch) shapes.flatten
  result : m'.result = m.result.extendedBy shapes
  extensible : m'.extensible = true

/-- **A branch extends the result by the properties that it does not lose.** -/
theorem InlineObject.run_mergeBranch (h : InlineObject branch) {m m' : Merge}
    (hm : m.extensible = true) (hp : Onward env start p)
    (hrun : (mergeBranch env (within env (compileReference env) levels) m (.object branch)
      omitted).run p = (.ok m', q)) :
    ∃ shapes, Extended env start branch omitted m m' shapes ∧ Onward env start q := by
  rw [mergeBranch_eq] at hrun
  obtain ⟨left, hleft, hrun⟩ := run_liftBind_eq_ok hrun
  have hadd : ∀ {reduced : Fields}, reduced.has "$ref" = false → reduced.has "allOf" = false →
      (reduced = branch ∧ omitted = [] ∨ withoutProperties omitted branch = .ok reduced) →
      (addReduced env (within env (compileReference env) levels) m omitted (.object reduced)).run p =
        (.ok m', q) →
      ∃ shapes, Extended env start branch omitted m m' shapes ∧ Onward env start q := by
    intro reduced href hallOf hreduced hrun
    rw [addReduced_eq hm href hallOf] at hrun
    obtain ⟨shape, r, hshape, hrun⟩ := run_bind_eq_ok hrun
    cases hrun
    obtain ⟨entries, rfl, hentries, hq⟩ := run_compileShape hp hshape
    refine ⟨[entries], ⟨?_, rfl, hm⟩, hq⟩
    rw [List.flatten_singleton]
    exact offers_of_shape hreduced hentries
  rcases h.reduceBranch_cases hleft with ⟨homitted, rfl⟩ | ⟨reduced, hreduced, rfl⟩
  · exact hadd (h.not_has (by decide)) (h.not_has (by decide)) (Or.inl ⟨rfl, homitted⟩) hrun
  · cases hspent : isSpent reduced with
    | true =>
      rw [hspent] at hrun
      cases hrun
      refine ⟨[], ⟨?_, (Expression.extendedBy_nil _).symm, hm⟩, hp⟩
      rw [sparedProperties_of_isSpent hreduced hspent]
      exact .nil
    | false =>
      rw [hspent] at hrun
      refine hadd ?_ ?_ (Or.inr hreduced) hrun
      · rw [has_withoutProperties hreduced (by decide), h.not_has (by decide)]
      · rw [has_withoutProperties hreduced (by decide), h.not_has (by decide)]

/-- All later branches extend the result, one after another. -/
theorem run_mergeBranches : ∀ {branches : List Fields} {omitted : List (List Scalar)} {m m' : Merge}
    {p q : Progress}, (∀ b ∈ branches, InlineObject b) → m.extensible = true → Onward env start p →
    (mergeBranches env (within env (compileReference env) levels) m
      ((branches.map .object).zip omitted)).run p = (.ok m', q) →
    ∃ additions : List (List (List Property)),
      List.Forall₂ (fun b shapes =>
        List.Forall₂ (Offers env start b.1) (sparedProperties env b.2 b.1) shapes.flatten)
        (branches.zip omitted) additions ∧
      m'.result = m.result.extendedBy additions.flatten ∧ Onward env start q
  | [], _, m, m', p, q, _, _, hp, hrun => by
    cases hrun
    exact ⟨[], .nil, (Expression.extendedBy_nil _).symm, hp⟩
  | branch :: branches, [], m, m', p, q, _, _, hp, hrun => by
    cases hrun
    exact ⟨[], .nil, (Expression.extendedBy_nil _).symm, hp⟩
  | branch :: branches, losing :: omitted, m, m', p, q, hinline, hm, hp, hrun => by
    obtain ⟨hfirst, hrest⟩ := List.forall_mem_cons.mp hinline
    obtain ⟨next, r, hbranch, hrun⟩ := run_bind_eq_ok hrun
    obtain ⟨shapes, hextended, hr⟩ := hfirst.run_mergeBranch hm hp hbranch
    obtain ⟨additions, hadditions, hresult, hq⟩ :=
      run_mergeBranches hrest hextended.extensible hr hrun
    refine ⟨shapes :: additions, .cons hextended.offers hadditions, ?_, hq⟩
    rw [hresult, hextended.result, List.flatten_cons, Expression.extendedBy_append]

/-! ## The entry of a name -/

/-- An entry made of a definition in a branch. -/
def MadeOf (env : Environment) (start : Progress) (branch : Fields) (n : Scalar) (definition : Value)
    (entry : Node) : Prop :=
  ∃ version e, VersionOf env definition version ∧ CompiledFrom env start version e ∧
    entry = entryOf (requires branch n) e

/-- A branch has a definition of a name that is canonically the given one. -/
def Repeats (definition : Value) (n : Scalar) (branch : Fields) : Prop :=
  ∃ d, Fields.lookup n (ownProperties branch) = some d ∧ SameCanonical definition d

/-- A way to make entries of the definitions in branches. -/
abbrev Making := Fields → Scalar → Value → Node → Prop

/-- **What branches hold under a name**: nothing if its first definition is hidden or there is none,
and else an entry that the last branch to repeat the first definition made of it. -/
inductive Effective (env : Environment) (making : Making) (branches : List Fields) (n : Scalar) :
    Option Node → Prop where
  | undeclared (first : firstDefinition (branches.map ownProperties) n = none) :
      Effective env making branches n none
  | hidden {d : Value} (first : firstDefinition (branches.map ownProperties) n = some d)
      (hidden : env.context.visibility.shows d = false) : Effective env making branches n none
  | shown {d d' : Value} {entry : Node} {earlier later : List Fields} {branch : Fields}
      (first : firstDefinition (branches.map ownProperties) n = some d)
      (shown : env.context.visibility.shows d = true)
      (split : branches = earlier ++ branch :: later)
      (defined : Fields.lookup n (ownProperties branch) = some d') (same : SameCanonical d d')
      (last : ∀ b ∈ later, ¬ Repeats d n b) (made : making branch n d' entry) :
      Effective env making branches n (some entry)

/-- What a branch adds under a name: nothing if it does not show it or loses it, and else an entry
that is made of its definition. -/
inductive Adds (env : Environment) (making : Making) (branch : Fields) (omitted : List Scalar)
    (n : Scalar) : Option Node → Prop where
  | nothing (lost : ∀ d, Fields.lookup n (ownProperties branch) = some d →
      env.context.visibility.shows d = true → omitted.any (·.same n) = true) :
      Adds env making branch omitted n none
  | entry {d : Value} {entry : Node} (defined : Fields.lookup n (ownProperties branch) = some d)
      (shown : env.context.visibility.shows d = true) (kept : omitted.any (·.same n) = false)
      (made : making branch n d entry) : Adds env making branch omitted n (some entry)

theorem Adds.mono {making making' : Making} {omitted : List Scalar} {added : Option Node}
    (h : Adds env making branch omitted n added)
    (hmade : ∀ d entry, making branch n d entry → making' branch n d entry) :
    Adds env making' branch omitted n added := by
  cases h with
  | nothing lost => exact .nothing lost
  | entry defined shown kept made => exact .entry defined shown kept (hmade _ _ made)

/-- A branch adds what it offers. -/
theorem adds_of_offers (hapart : Apart (ownProperties branch)) {entries : List Property}
    (h : List.Forall₂ (Offers env start branch) (sparedProperties env omitted branch) entries)
    (n : Scalar) : Adds env (MadeOf env start) branch omitted n (Property.last? n entries) := by
  have hoffered : List.Forall₂ (fun (f : Scalar × Value) (entry : Property) => entry.name = f.1 ∧
      ∃ version e, VersionOf env f.2 version ∧ CompiledFrom env start version e ∧
        entry.value = entryOf (requires branch f.1) e)
      (sparedProperties env omitted branch) entries := by
    refine h.imp ?_
    rintro f entry ⟨version, hversion, hname, e, he, hvalue⟩
    exact ⟨hname, version, e, hversion, he, hvalue⟩
  have hsame : ∀ {k : Scalar}, k.same n = true →
      omitted.any (·.same k) = omitted.any (·.same n) := by
    intro k hk
    simp only [Scalar.same_congr hk]
  have hspared : Apart (sparedProperties env omitted branch) := (hapart.filter _).filter _
  rcases Property.last?_of_forall₂ (P := fun f node => ∃ version e, VersionOf env f.2 version ∧
      CompiledFrom env start version e ∧ node = entryOf (requires branch f.1) e) hspared hoffered n with
    ⟨hlookup, hlast⟩ | ⟨k, d, entry, hmem, hk, -, hlast, version, e, hversion, he, hentry⟩
  · rw [hlast]
    refine .nothing fun d hd hshown => ?_
    obtain ⟨k, hmem, hk⟩ := Fields.mem_of_lookup hd
    by_contra hkept
    have hin : (k, d) ∈ sparedProperties env omitted branch := by
      refine List.mem_filter.mpr ⟨List.mem_filter.mpr ⟨hmem, ?_⟩, hshown⟩
      simpa [spares, hsame hk] using hkept
    have hdiffers := Fields.lookup_eq_none_iff.mp hlookup _ hin
    rw [hk] at hdiffers
    cases hdiffers
  · obtain ⟨hin, hshown⟩ := List.mem_filter.mp hmem
    obtain ⟨hin, hkept⟩ := List.mem_filter.mp hin
    rw [hlast]
    refine .entry (Fields.lookup_of_mem hapart hin hk) hshown ?_ ⟨version, e, hversion, he, ?_⟩
    · rw [← hsame hk]
      simpa [spares] using hkept
    · rw [hentry, requires_congr hk]

section Effective

variable {before : List Fields} {losing : List Scalar} {making : Making}

theorem firstDefinition_snoc (before : List Fields) (branch : Fields) (n : Scalar) :
    firstDefinition ((before ++ [branch]).map ownProperties) n =
      (firstDefinition (before.map ownProperties) n).or
        (Fields.lookup n (ownProperties branch)) := by
  rw [List.map_append, firstDefinition_append, List.map_singleton, firstDefinition_singleton]

theorem distinct_firstDefinition {d : Value} (hdistinct : ∀ b ∈ before, Fields.distinct b = true)
    (h : firstDefinition (before.map ownProperties) n = some d) : d.distinct = true := by
  obtain ⟨properties, hmem, hd⟩ := List.exists_of_findSome?_eq_some h
  obtain ⟨b, hb, rfl⟩ := List.mem_map.mp hmem
  obtain ⟨k, hk, -⟩ := Fields.mem_of_lookup hd
  exact Fields.distinct_of_mem (distinct_ownProperties (hdistinct b hb)) hk

theorem firstDefinition_snoc_of_some {d : Value}
    (h : firstDefinition (before.map ownProperties) n = some d) (branch : Fields) :
    firstDefinition ((before ++ [branch]).map ownProperties) n = some d := by
  rw [firstDefinition_snoc, h]
  rfl

theorem firstDefinition_snoc_of_none (h : firstDefinition (before.map ownProperties) n = none)
    (branch : Fields) : firstDefinition ((before ++ [branch]).map ownProperties) n =
      Fields.lookup n (ownProperties branch) := by
  rw [firstDefinition_snoc, h]
  rfl

/-- A repeated definition is as visible as the first one. -/
theorem shows_of_repeated (hbefore : ∀ b ∈ before, Fields.distinct b = true)
    (hbranch : Fields.distinct branch = true) {d d' : Value}
    (hd : firstDefinition (before.map ownProperties) n = some d)
    (hd' : Fields.lookup n (ownProperties branch) = some d') (h : SameCanonical d d') :
    env.context.visibility.shows d = env.context.visibility.shows d' := by
  obtain ⟨k, hk, -⟩ := Fields.mem_of_lookup hd'
  exact h.shows (distinct_firstDefinition hbefore hd)
    (Fields.distinct_of_mem (distinct_ownProperties hbranch) hk) _

/-- A branch that adds nothing leaves the entry: it does not show the name, or loses it. -/
theorem Effective.pass {entry : Option Node} (h : Effective env making before n entry)
    (hbefore : ∀ b ∈ before, Fields.distinct b = true) (hbranch : Fields.distinct branch = true)
    (hnot : ∀ d, Fields.lookup n (ownProperties branch) = some d →
      env.context.visibility.shows d = true →
      Differs (before.map ownProperties) (ownProperties branch) n) :
    Effective env making (before ++ [branch]) n entry := by
  cases h with
  | undeclared first =>
    cases hd' : Fields.lookup n (ownProperties branch) with
    | none => exact .undeclared ((firstDefinition_snoc_of_none first branch).trans hd')
    | some d' =>
      refine .hidden ((firstDefinition_snoc_of_none first branch).trans hd') ?_
      by_contra hshown
      obtain ⟨d, -, hd, -⟩ := hnot d' hd' (by simpa using hshown)
      rw [first] at hd
      cases hd
  | hidden first hidden => exact .hidden (firstDefinition_snoc_of_some first branch) hidden
  | @shown d d₀ entry earlier later b first shown split defined same last made =>
    have hsplit : before ++ [branch] = earlier ++ b :: (later ++ [branch]) := by
      rw [split]
      simp
    refine .shown (firstDefinition_snoc_of_some first branch) shown hsplit defined same ?_ made
    refine List.forall_mem_append.mpr ⟨last, List.forall_mem_singleton.mpr ?_⟩
    rintro ⟨d', hd', hsame⟩
    have hshown := (shows_of_repeated hbefore hbranch first hd' hsame).symm.trans shown
    obtain ⟨d₁, d₂, hd₁, hd₂, hdiffers⟩ := hnot d' hd' hshown
    rw [first] at hd₁
    rw [hd'] at hd₂
    cases hd₁
    cases hd₂
    exact hdiffers hsame

/-- A branch that shows a name as it was defined first, or is the first to define it, makes the
entry. -/
theorem Effective.take {entry : Option Node} {node : Node} {d' : Value}
    (h : Effective env making before n entry)
    (hbefore : ∀ b ∈ before, Fields.distinct b = true) (hbranch : Fields.distinct branch = true)
    (hwritten : ∀ f ∈ ownProperties branch, ∃ t, Json.write Json.canonical f.2 = .ok t)
    (hnot : ¬ Differs (before.map ownProperties) (ownProperties branch) n)
    (hd' : Fields.lookup n (ownProperties branch) = some d')
    (hshown : env.context.visibility.shows d' = true) (hmade : making branch n d' node) :
    Effective env making (before ++ [branch]) n (some node) := by
  have hrepeats : ∀ {d : Value}, firstDefinition (before.map ownProperties) n = some d →
      SameCanonical d d' := fun hd => by_contra fun hdiffers => hnot ⟨_, d', hd, hd', hdiffers⟩
  cases h with
  | undeclared first =>
    obtain ⟨k, hk, -⟩ := Fields.mem_of_lookup hd'
    obtain ⟨t, ht⟩ := hwritten _ hk
    exact .shown ((firstDefinition_snoc_of_none first branch).trans hd') hshown rfl hd' ⟨t, ht, ht⟩
      nofun hmade
  | hidden first hidden =>
    rw [shows_of_repeated hbefore hbranch first hd' (hrepeats first), hshown] at hidden
    cases hidden
  | shown first shown split defined same last made =>
    exact .shown (firstDefinition_snoc_of_some first branch) shown rfl hd' (hrepeats first) nofun hmade

/-- One more branch: it makes the entry if it repeats the first definition or is the first to have
one, and shows it. -/
theorem Effective.step {entry added : Option Node} (h : Effective env making before n entry)
    (hbefore : ∀ b ∈ before, Fields.distinct b = true) (hbranch : Fields.distinct branch = true)
    (hwritten : ∀ f ∈ ownProperties branch, ∃ t, Json.write Json.canonical f.2 = .ok t)
    (hlosing : ∀ k, k ∈ losing ↔ Loses (before.map ownProperties) (ownProperties branch) k)
    (hadds : Adds env making branch losing n added) :
    Effective env making (before ++ [branch]) n (added.or entry) := by
  have hapart : Apart (ownProperties branch) :=
    (Fields.distinct_iff.mp (distinct_ownProperties hbranch)).2
  have hlost : losing.any (·.same n) = true ↔
      Differs (before.map ownProperties) (ownProperties branch) n := any_losing_iff hapart hlosing
  cases hadds with
  | nothing hnot =>
    rw [Option.none_or]
    exact h.pass hbefore hbranch fun d hd hshown => hlost.mp (hnot d hd hshown)
  | entry defined shown kept made =>
    have hnot : ¬ Differs (before.map ownProperties) (ownProperties branch) n := by
      rw [← hlost, kept]
      decide
    rw [Option.some_or]
    exact h.take hbefore hbranch hwritten hnot defined shown made

/-- **All branches, one after another.** -/
theorem effective_of_additions : ∀ {branches before : List Fields} {losings : List (List Scalar)}
    {additions : List (List Property)} {entries : List Property},
    (∀ b ∈ before, Fields.distinct b = true) → (∀ b ∈ branches, Fields.distinct b = true) →
    LosesInTurn (before.map ownProperties) (branches.map ownProperties) losings →
    List.Forall₂ (fun b entries => ∀ n, Adds env making b.1 b.2 n (Property.last? n entries))
      (branches.zip losings) additions →
    (∀ n, Effective env making before n (Property.last? n entries)) →
    ∀ n, Effective env making (before ++ branches) n (Property.last? n (entries ++ additions.flatten))
  | [], before, losings, additions, entries, _, _, hturn, hadditions, h => by
    cases hturn
    cases hadditions
    intro n
    rw [List.append_nil, List.flatten_nil, List.append_nil]
    exact h n
  | branch :: branches, before, losings, additions, entries, hbefore, hdistinct, hturn, hadditions,
      h => by
    obtain ⟨hbranch, hrest⟩ := List.forall_mem_cons.mp hdistinct
    cases hturn with
    | @cons _ _ _ losing losings apart written losing_iff later =>
      cases hadditions with
      | @cons _ new _ additions hadds hadditions =>
        have hsplit : before ++ branch :: branches = (before ++ [branch]) ++ branches := by simp
        rw [hsplit, List.flatten_cons, ← List.append_assoc]
        refine effective_of_additions ?_ hrest ?_ hadditions fun n => ?_
        · exact List.forall_mem_append.mpr ⟨hbefore, List.forall_mem_singleton.mpr hbranch⟩
        · rw [List.map_append, List.map_singleton]
          exact later
        · rw [Property.last?_append]
          exact (h n).step hbefore hbranch written losing_iff (hadds n)

end Effective

/-! ## The composition -/

theorem InlineObject.isObjectLike_eq (h : InlineObject branch) (schemas : Fields) :
    isObjectLike schemas (.object branch) = .ok true := by
  have hdescribes : describesObject branch = true := by
    rw [describesObject, h.typed]
    rfl
  rw [isObjectLike, h.branchRef?_eq]
  show Except.ok (describesObject branch) = _
  rw [hdescribes]

theorem allObjectLike_inline {schemas : Fields} : ∀ {branches : List Fields},
    (∀ b ∈ branches, InlineObject b) → allObjectLike schemas (branches.map .object) = .ok true
  | [], _ => rfl
  | branch :: branches, h => by
    obtain ⟨hfirst, hrest⟩ := List.forall_mem_cons.mp h
    rw [List.map_cons, allObjectLike, hfirst.isObjectLike_eq]
    exact allObjectLike_inline hrest

/-- An expression with a note of the conflicts that a composition found. -/
def withConflicts (conflicts : List String) (e : Expression) : Expression :=
  if conflicts.isEmpty then e
  else e.andThen "describe"
    [.literal (.text ("allOf composition conflict: " ++ Text.join "; " conflicts))]

theorem dresses_withConflicts (conflicts : List String) (e : Expression) :
    Dresses e (withConflicts conflicts e) :=
  .ite (.refl e) (.call (by decide) e _)

/-- What the scan of inline objects finds: what each branch loses, and a conflict for each of these
names. -/
theorem scanBranches_inline {schemas : Fields} (hinline : ∀ b ∈ branches, InlineObject b)
    (hdistinct : ∀ b ∈ branches, Fields.distinct b = true) {scan : Scan}
    (h : scanBranches schemas (branches.map .object) = .ok scan) :
    LosesInTurn [] (branches.map ownProperties) scan.overridden ∧
      scan.conflicts = scan.overridden.flatten.map (conflictText "inline") := by
  obtain ⟨declared, hdeclared, hturn, hconflicts⟩ := scanBranches_spec h
  have hown : declared = branches.map ownProperties := by
    clear h hturn hconflicts
    induction branches generalizing declared with
    | nil =>
      cases hdeclared
      rfl
    | cons branch branches ih =>
      obtain ⟨hfirst, hrest⟩ := List.forall_mem_cons.mp hinline
      obtain ⟨hfirst', hrest'⟩ := List.forall_mem_cons.mp hdistinct
      cases hdeclared with
      | cons hproperties hdeclared =>
        rw [hfirst.propertiesOf_eq hfirst' hproperties, ih hrest hrest' _ hdeclared]
        rfl
  subst hown
  refine ⟨hturn, hconflicts "inline" ?_⟩
  simp only [List.forall_mem_map]
  exact fun b hb => (hinline b hb).branchSource_eq

/-- Before anything else is compiled, the first branch of a composition is answered with an expression
that holds what it adds. -/
def Answered (env : Environment) (p : Progress) (making : Making) (first : Fields) : Prop :=
  ∀ {q r : Progress} {levels : Nat} {e : Expression}, Follows p q → q.caches = p.caches →
    (within env (compileReference env) levels (.object first) true).run q = (.ok e, r) →
    e.SpelledOut ∧ ∀ n, Adds env making first [] n (e.held? n)

/-- What a branch is answered with in the course of a run, compiled or looked up. -/
def AnsweredWith (env : Environment) (p : Progress) (branch : Fields) (e : Expression) : Prop :=
  ∃ levels q r, Onward env p q ∧
    (within env (compileReference env) levels (.object branch) true).run q = (.ok e, r)

/-- **What an `allOf` comes to**: the first branch extended by shapes, with a note of the conflicts.
They are in the session, with those that were there, and besides them only conflicts of compositions
inside the branches are. -/
structure Composed (env : Environment) (p q : Progress) (branches : List Fields)
    (conflicted : List Scalar) (nullable : Bool) (e : Expression) : Prop where
  extended : ∃ first ∈ branches.head?, ∃ head shapes, AnsweredWith env p first head ∧
    e = (withConflicts (conflicted.map (conflictText "inline"))
      (head.extendedBy shapes)).nullableIf nullable
  kept : p.session.conflicts ⊆ q.session.conflicts
  recorded : ∀ k ∈ conflicted, conflictText "inline" k ∈ q.session.conflicts
  only : ∀ c ∈ q.session.conflicts, c ∈ p.session.conflicts ∨
    (∃ k ∈ conflicted, c = conflictText "inline" k) ∨ ∃ b ∈ branches, ConflictBelow env (.object b) c

/-- The first branch of a composition loses nothing. -/
theorem LosesInTurn.exists_cons {properties : Fields} {declared : List Fields}
    {losings : List (List Scalar)} (h : LosesInTurn [] (properties :: declared) losings) :
    ∃ later, losings = [] :: later := by
  cases h with
  | @cons _ _ _ losing later _ _ losing_iff _ =>
    have hnothing : losing = [] := by
      refine List.eq_nil_iff_forall_not_mem.mpr fun k hk => ?_
      obtain ⟨d, -, hd, -⟩ := (losing_iff k).mp hk
      cases hd
    exact ⟨later, by rw [hnothing]⟩

/-- Of the conflicts in the session after an `allOf`, those that are new were found by its scan or
inside a branch. -/
theorem conflicts_of_scan {nullable : Bool} {scan : Scan} {c : String}
    (hscan : scanBranches env.schemas (branches.map .object) = .ok scan)
    (h : (compileAllOf env (within env (compileReference env) levels) (branches.map .object)
      nullable).run p = (.ok e, q)) (hc : c ∈ q.session.conflicts) :
    c ∈ p.session.conflicts ∨ c ∈ scan.conflicts ∨
      ∃ b ∈ branches, ConflictBelow env (.object b) c := by
  obtain rfl : q = _ := (congrArg Prod.snd h).symm
  rcases compileAllOf_conflicts hc with hbefore | ⟨scan', hscan', hfound⟩ | ⟨b, hb, hbelow⟩
  · exact Or.inl hbefore
  · rw [hscan] at hscan'
    cases hscan'
    exact Or.inr (Or.inl hfound)
  · obtain ⟨fields, hfields, rfl⟩ := List.mem_map.mp hb
    exact Or.inr (Or.inr ⟨fields, hfields, hbelow⟩)

/-- **An `allOf` of inline objects is the first one extended by what the others do not lose.** -/
theorem run_compileAllOf {first second : Fields} {rest : List Fields} {nullable : Bool}
    {making : Making} (hinline : ∀ b ∈ first :: second :: rest, InlineObject b)
    (hdistinct : ∀ b ∈ first :: second :: rest, Fields.distinct b = true)
    (hfirst : Answered env p making first)
    (h : (compileAllOf env (within env (compileReference env) levels)
      ((first :: second :: rest).map .object) nullable).run p = (.ok e, q)) :
    ∃ losings, ∃ head : Expression, ∃ additions : List (List (List Property)),
      LosesInTurn [] ((first :: second :: rest).map ownProperties) ([] :: losings) ∧
      head.SpelledOut ∧ (∀ n, Adds env making first [] n (head.held? n)) ∧
      List.Forall₂ (fun b shapes =>
        List.Forall₂ (Offers env p b.1) (sparedProperties env b.2 b.1) shapes.flatten)
        ((second :: rest).zip losings) additions ∧
      e = (withConflicts (losings.flatten.map (conflictText "inline"))
        (head.extendedBy additions.flatten)).nullableIf nullable ∧
      Composed env p q (first :: second :: rest) losings.flatten nullable e := by
  have hrun := h
  rw [List.map_cons, List.map_cons, compileAllOf_cons] at h
  obtain ⟨scan, hscan, h⟩ := run_liftBind_eq_ok h
  obtain ⟨hturn, hconflicts⟩ := scanBranches_inline hinline hdistinct hscan
  obtain ⟨p₁, hp₁, hname, hcaches, hrecorded⟩ := run_addConflicts scan.conflicts p
  rw [run_bind_ok hp₁] at h
  have hfollows : Follows p p₁ := ⟨hname, fun c hc => (hrecorded c).mpr (Or.inl hc)⟩
  obtain ⟨head, p₂, hhead, h⟩ := run_bind_eq_ok h
  obtain ⟨hspelled, hadds⟩ := hfirst hfollows hcaches hhead
  have hstart : Onward env p p₁ := Onward.aside .refl hfollows hcaches
  rw [if_pos hspelled.exposesShape] at h
  obtain ⟨extensible, hlike, h⟩ := run_liftBind_eq_ok h
  have hall : allObjectLike env.schemas ((first :: second :: rest).map .object) = .ok true :=
    allObjectLike_inline hinline
  rw [List.map_cons, List.map_cons, hlike] at hall
  cases hall
  obtain ⟨merged, p₃, hmerge, h⟩ := run_bind_eq_ok h
  cases h
  obtain ⟨losings, hlosings⟩ := hturn.exists_cons
  rw [hlosings] at hturn hconflicts hmerge
  have hrest : ∀ b ∈ second :: rest, InlineObject b := fun b hb =>
    hinline b (List.mem_cons_of_mem _ hb)
  obtain ⟨additions, hadditions, hresult, -⟩ :=
    run_mergeBranches hrest rfl (hstart.of_run hhead) hmerge
  -- the course from the first branch on keeps the conflicts that the scan has recorded
  obtain ⟨-, -, -, hlater⟩ := run_mergeBranches hrest rfl (Onward.refl.of_run hhead) hmerge
  have hcomposed : (withConflicts scan.conflicts merged.result).nullableIf nullable =
      (withConflicts (losings.flatten.map (conflictText "inline"))
        (head.extendedBy additions.flatten)).nullableIf nullable := by
    rw [hconflicts, hresult]
    rfl
  refine ⟨losings, head, additions, hturn, hspelled, hadds, hadditions, hcomposed, ?_⟩
  refine ⟨⟨first, rfl, head, additions.flatten, ⟨levels, p₁, p₂, hstart, hhead⟩, hcomposed⟩,
    fun c hc => hlater.follows.conflicts (hfollows.conflicts hc), fun k hk => ?_, fun c hc => ?_⟩
  · refine hlater.follows.conflicts ((hrecorded _).mpr (Or.inr ?_))
    rw [hconflicts]
    exact List.mem_map_of_mem hk
  · refine (conflicts_of_scan hscan hrun hc).imp_right (Or.imp_left fun hfound => ?_)
    rw [hconflicts] at hfound
    obtain ⟨k, hk, rfl⟩ := List.mem_map.mp hfound
    exact ⟨k, hk, rfl⟩

/-- **The merged object holds under each name what the branches hold.** -/
theorem effective_of_answered {making : Making} {nullable : Bool}
    (hmaking : ∀ {b n d entry}, MadeOf env p b n d entry → making b n d entry)
    (hlength : 2 ≤ branches.length) (hinline : ∀ b ∈ branches, InlineObject b)
    (hdistinct : ∀ b ∈ branches, Fields.distinct b = true)
    (hfirst : ∀ first ∈ branches.head?, Answered env p making first)
    (h : (compileAllOf env (within env (compileReference env) levels) (branches.map .object)
      nullable).run p = (.ok e, q)) :
    ∃ losings, LosesInTurn [] (branches.map ownProperties) losings ∧
      Composed env p q branches losings.flatten nullable e ∧ e.SpelledOut ∧
      ∀ n, Effective env making branches n (e.held? n) := by
  obtain ⟨first, second, rest, rfl⟩ : ∃ first second rest, branches = first :: second :: rest := by
    match branches, hlength with
    | first :: second :: rest, _ => exact ⟨first, second, rest, rfl⟩
  obtain ⟨losings, head, additions, hturn, hspelled, hadds, hadditions, he, hcomposed⟩ :=
    run_compileAllOf hinline hdistinct (hfirst first rfl) h
  have hdressed : Dresses (head.extendedBy additions.flatten) e := by
    rw [he]
    exact (dresses_withConflicts _ _).trans (.nullableIf _ nullable)
  refine ⟨[] :: losings, hturn, hcomposed, hdressed.spelledOut (hspelled.extendedBy _), fun n => ?_⟩
  have hall : List.Forall₂ (fun b entries => ∀ n, Adds env making b.1 b.2 n (Property.last? n entries))
      ((first :: second :: rest).zip ([] :: losings)) (head.entries :: additions.map List.flatten) := by
    refine .cons hadds (List.forall₂_map_right_iff.mpr ((Outcome.forall₂_mem hadditions).imp ?_))
    rintro ⟨b, omitted⟩ shapes ⟨hb, -, hoffers⟩ n
    have hapart : Apart (ownProperties b) := (Fields.distinct_iff.mp (distinct_ownProperties
      (hdistinct b (List.mem_cons_of_mem _ (List.of_mem_zip hb).1)))).2
    exact (adds_of_offers hapart hoffers n).mono fun _ _ => hmaking
  have hnone : ∀ b ∈ ([] : List Fields), Fields.distinct b = true := nofun
  have hstart : ∀ n, Effective env making [] n (Property.last? n []) := fun n => .undeclared rfl
  have heffective := effective_of_additions hnone hdistinct hturn hall hstart n
  rwa [List.nil_append, List.nil_append, List.flatten_cons, ← List.flatten_flatten,
    ← Expression.entries_extendedBy, ← hdressed.entries] at heffective

end SchemaForge.Compile
