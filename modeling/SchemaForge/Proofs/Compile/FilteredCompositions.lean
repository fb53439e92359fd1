import SchemaForge.Proofs.Compile.Outlook

/-!
# Compositions of filtered branches

A composition that sees the same in its branches as in the filtered ones goes on in the same way: an
`allOf` extends or intersects by the same branches, and a union keeps their order and what tells them
apart. What is left of each branch is then compiled to the same.
-/

namespace SchemaForge.Compile

open Reference Schema Visibility

variable {env : Environment} {inner : Inner}

/-! ## `allOf` -/

theorem branchRef?_object (fields : Fields) (h : fields.has "$ref" = false) :
    branchRef? (.object fields) = .ok none := by
  show (if fields.has "$ref" = true then _ else _) = _
  rw [if_neg (by simp [h])]
  rfl

theorem isObjectLike_filterSchema {b b' : Value}
    (h : env.context.visibility.filterSchema b = .ok b') :
    isObjectLike env.schemas b' = isObjectLike env.schemas b := by
  rcases filterSchema_cases h with rfl | ⟨fields, after, rfl, rfl, href, hafter⟩
  · rfl
  · have href' : Fields.has after "$ref" = false := by rw [hafter.has (by decide), href]
    have hdescribes : describesObject after = describesObject fields := by
      rw [describesObject, hafter.value (by decide) (by decide), hafter.has (by decide),
        hafter.has (by decide)]
      rfl
    unfold isObjectLike
    rw [branchRef?_object _ href, branchRef?_object _ href']
    show Except.ok (describesObject after) = Except.ok (describesObject fields)
    rw [hdescribes]

theorem allObjectLike_filtered {branches branches' : List Value}
    (h : FilteredAll env.context.visibility branches branches') :
    allObjectLike env.schemas branches' = allObjectLike env.schemas branches := by
  induction h with
  | nil => rfl
  | cons hb _ ih => rw [allObjectLike, allObjectLike, isObjectLike_filterSchema hb, ih]

/-- Adds what is left of a branch. -/
def addReduced (env : Environment) (inner : Inner) (m : Merge) (omitted : List Scalar)
    (branch : Value) : Compile Merge := do
  let argument ←
    match branch with
    | .object fields => if m.extensible then extension env inner omitted fields else pure none
    | _ => pure none
  match argument with
  | some shape => return { m with result := m.result.andThen "extend" [shape] }
  | none =>
    let e ← intersection inner omitted branch
    return { result := m.result.andThen "and" [e.toNode], extensible := false }

theorem mergeBranch_eq (m : Merge) (b : Value) (omitted : List Scalar) :
    mergeBranch env inner m b omitted = (do
      match ← (liftM (reduceBranch omitted b) : Compile (Option Value)) with
      | none => return m
      | some left => addReduced env inner m omitted left) := rfl

/-- Two schemas that a composition takes for one: as branches and for their shapes. -/
structure SameBranch (env : Environment) (inner : Inner) (fields fields' : Fields) : Prop where
  whole : inner (.object fields') true = inner (.object fields) true
  shape : compileShape env inner false fields' = compileShape env inner false fields
  ref : fields'.has "$ref" = fields.has "$ref"
  allOf : fields'.has "allOf" = fields.has "allOf"

theorem SameBranch.addReduced {fields fields' : Fields} (h : SameBranch env inner fields fields')
    (m : Merge) (omitted : List Scalar) :
    addReduced env inner m omitted (.object fields') =
      addReduced env inner m omitted (.object fields) := by
  have hextension : extension env inner omitted fields' = extension env inner omitted fields := by
    unfold extension
    rw [h.ref, h.allOf, h.whole, h.shape]
  have hintersection : intersection inner omitted (.object fields') =
      intersection inner omitted (.object fields) := by
    have hholds : (Value.object fields').holds "$ref" = (Value.object fields).holds "$ref" :=
      congrArg Except.ok h.ref
    unfold intersection
    rw [h.whole, hholds]
  unfold Compile.addReduced
  dsimp only
  rw [hextension, hintersection]

/-- A later branch of a composition, and what filtering leaves of it. -/
structure LaterBranch (env : Environment) (b b' : Value) : Prop where
  filtered : env.context.visibility.filterSchema b = .ok b'
  named : b.textNamed = true
  settled : Settled env b
  taken : ∀ fields : Fields, b = .object fields → fields.has "$ref" = false →
    ∀ properties, fields.value "properties" = .object properties → ∀ f ∈ properties,
    env.context.visibility.shows f.2 = true → Settled env f.2

namespace LaterBranch

variable {b b' : Value} (hvis : env.context.visibility ≠ .all) (hinner : Blind env inner)
  (h : LaterBranch env b b')
include hinner h

/-- The properties of a branch that is taken apart are compiled alike. -/
theorem propertiesAlike {fields : Fields} (hb : b = .object fields)
    (href : fields.has "$ref" = false) : PropertiesAlike env inner fields := by
  intro properties hproperties f hf hshown v' hv
  have hnamed : Fields.textNamed properties = true := by
    have hvalue := h.named
    rw [hb] at hvalue
    have hvalue := Fields.textNamed_value hvalue "properties"
    rwa [hproperties] at hvalue
  exact hinner _ _ _ (.filtered hv (Fields.textNamed_iff.mp hnamed f hf).2
    (h.taken fields hb href properties hproperties f hf hshown))

include hvis

/-- The schemas that are left of a branch before filtering and afterwards, if any. -/
theorem reduced_cases {fields after : Fields} {omitted : List Scalar} {left left' : Value}
    (hb : b = .object fields) (hb' : b' = .object after) (href : fields.has "$ref" = false)
    (hafter : Filtered env.context.visibility fields after)
    (hleft : reduceBranch omitted b = .ok (some left))
    (hleft' : reduceBranch omitted b' = .ok (some left')) :
    ∃ s s', left = .object s ∧ left' = .object s' ∧ SameBranch env inner s s' := by
  subst hb hb'
  have hproperties := h.propertiesAlike hinner rfl href
  have hnamed : Fields.textNamed fields = true := h.named
  have hkept : (omitted.isEmpty || Fields.has after "$ref" || Fields.has after "allOf") =
      (omitted.isEmpty || Fields.has fields "$ref" || Fields.has fields "allOf") := by
    rw [hafter.has (by decide), hafter.has (by decide)]
  rcases reduceBranch_object hleft with ⟨hwhole, heq⟩ | ⟨hreduced, s, hs, heq⟩ <;>
    rcases reduceBranch_object hleft' with ⟨hwhole', heq'⟩ | ⟨hreduced', s', hs', heq'⟩
  · cases heq
    cases heq'
    refine ⟨fields, after, rfl, rfl, hinner _ _ _ (.filtered h.filtered h.named h.settled), ?_,
      hafter.has (by decide), hafter.has (by decide)⟩
    exact compileShape_filtered hafter hnamed hproperties
  · cases (hreduced'.symm.trans hkept).trans hwhole
  · cases (hwhole'.symm.trans hkept).trans hreduced
  · cases (Option.ite_none_left_eq_some.mp heq.symm).2
    cases (Option.ite_none_left_eq_some.mp heq'.symm).2
    have hhas : ∀ {k}, k ∉ ["properties", "required"] → k ≠ "required" →
        Fields.has s' k = Fields.has s k := by
      intro k hk hk'
      rw [has_withoutProperties hs hk, has_withoutProperties hs' hk, hafter.has hk']
    refine ⟨s, s', rfl, rfl, ?_, ?_, hhas (by decide) (by decide),
      hhas (by decide) (by decide)⟩
    · have hsame := filterSchema_withoutProperties hafter href hnamed hs hs'
      refine hinner _ _ _ (.visible (textNamed_withoutProperties hnamed hs) ?_ ?_)
      · exact textNamed_withoutProperties ((filterSchema_stable h.filtered).textNamed h.named) hs'
      · rw [visibleFields_of_properties hvis (has_properties_withoutProperties hs),
          visibleFields_of_properties hvis (has_properties_withoutProperties hs'), hsame]
    · exact compileShape_withoutProperties hafter href hnamed hs hs' hproperties

/-- **A later branch is added alike if something is left of it before filtering and afterwards, or
nothing is.** -/
theorem merge_eq {omitted : List Scalar}
    (hleft : (reduceBranch omitted b').map Option.isSome = (reduceBranch omitted b).map Option.isSome)
    (m : Merge) : mergeBranch env inner m b' omitted = mergeBranch env inner m b omitted := by
  rcases filterSchema_cases h.filtered with rfl | ⟨fields, after, hb, hb', href, hafter⟩
  · rfl
  rw [mergeBranch_eq, mergeBranch_eq]
  cases hreduced : reduceBranch omitted b with
  | error f =>
    cases hreduced' : reduceBranch omitted b' with
    | error f' =>
      rw [hreduced, hreduced'] at hleft
      cases hleft
      rfl
    | ok left' =>
      rw [hreduced, hreduced'] at hleft
      cases hleft
  | ok left =>
    cases hreduced' : reduceBranch omitted b' with
    | error f' =>
      rw [hreduced, hreduced'] at hleft
      cases hleft
    | ok left' =>
      rw [hreduced, hreduced'] at hleft
      replace hleft : left'.isSome = left.isSome := Except.ok.inj hleft
      cases left with
      | none =>
        obtain rfl : left' = none := by simpa using hleft
        rfl
      | some l =>
        obtain ⟨l', rfl⟩ := Option.isSome_iff_exists.mp hleft
        obtain ⟨s, s', rfl, rfl, hsame⟩ :=
          h.reduced_cases hvis hinner hb hb' href hafter hreduced hreduced'
        exact hsame.addReduced m omitted

end LaterBranch

/-- All later branches, each with the properties that it loses. -/
theorem mergeBranches_filtered (hvis : env.context.visibility ≠ .all) (hinner : Blind env inner)
    {branches branches' : List Value} (h : List.Forall₂ (LaterBranch env) branches branches') :
    ∀ {overridden : List (List Scalar)} (m : Merge),
      ((branches'.zip overridden).map fun b => (reduceBranch b.2 b.1).map Option.isSome) =
        ((branches.zip overridden).map fun b => (reduceBranch b.2 b.1).map Option.isSome) →
      mergeBranches env inner m (branches'.zip overridden) =
        mergeBranches env inner m (branches.zip overridden) := by
  induction h with
  | nil => exact fun _ _ => rfl
  | @cons b b' branches branches' hb _ ih =>
    intro overridden m hleft
    cases overridden with
    | nil => rfl
    | cons omitted overridden =>
      simp only [List.zip_cons_cons, List.map_cons, List.cons.injEq] at hleft
      rw [List.zip_cons_cons, List.zip_cons_cons, mergeBranches, mergeBranches,
        hb.merge_eq hvis hinner hleft.1]
      exact congrArg _ (funext fun m => ih m hleft.2)

theorem compileAllOf_cons (first second : Value) (rest : List Value) (nullable : Bool) :
    compileAllOf env inner (first :: second :: rest) nullable = (do
      let scan ← (liftM (scanBranches env.schemas (first :: second :: rest)) : Compile Scan)
      scan.conflicts.forM addConflict
      let head ← inner first true
      let extensible ←
        if head.exposesShape then
          monadLift (allObjectLike env.schemas (first :: second :: rest))
        else pure false
      let merged ← mergeBranches env inner ⟨head, extensible⟩
        ((second :: rest).zip scan.overridden.tail)
      let e :=
        if scan.conflicts.isEmpty then merged.result
        else merged.result.andThen "describe"
          [.literal (.text ("allOf composition conflict: " ++ Text.join "; " scan.conflicts))]
      return e.nullableIf nullable) := rfl

/-- Branches in which the same is found are scanned alike. -/
theorem scans_of_outlook {schemas : Fields} {branches branches' : List Value}
    (h : allOfOutlook schemas branches' = allOfOutlook schemas branches) :
    (∃ f, scanBranches schemas branches = .error f ∧ scanBranches schemas branches' = .error f) ∨
      ∃ scan scan', scanBranches schemas branches = .ok scan ∧
        scanBranches schemas branches' = .ok scan' ∧ scan'.conflicts = scan.conflicts ∧
        scan'.overridden = scan.overridden ∧
        ((branches'.tail.zip scan.overridden.tail).map fun b =>
            (reduceBranch b.2 b.1).map Option.isSome) =
          (branches.tail.zip scan.overridden.tail).map fun b =>
            (reduceBranch b.2 b.1).map Option.isSome := by
  unfold allOfOutlook at h
  cases hscan : scanBranches schemas branches with
  | error f =>
    cases hscan' : scanBranches schemas branches' with
    | error f' =>
      rw [hscan, hscan'] at h
      cases h
      exact Or.inl ⟨f, rfl, rfl⟩
    | ok scan' =>
      rw [hscan, hscan'] at h
      cases h
  | ok scan =>
    cases hscan' : scanBranches schemas branches' with
    | error f' =>
      rw [hscan, hscan'] at h
      cases h
    | ok scan' =>
      rw [hscan, hscan'] at h
      obtain ⟨hconflicts, h⟩ := Prod.mk.inj (Except.ok.inj h)
      obtain ⟨hoverridden, hleft⟩ := Prod.mk.inj h
      rw [hoverridden] at hleft
      exact Or.inr ⟨scan, scan', rfl, rfl, hconflicts, hoverridden, hleft⟩

/-- **An `allOf` composition that sees the same in its branches as in the filtered ones.** -/
theorem Undeclared.allOf_eq {schema schema' : Fields} (h : Undeclared env schema schema')
    (hvis : env.context.visibility ≠ .all) (hinner : Blind env inner)
    {branches branches' : List Value} (hwalk : (schema.value "allOf").walk = .ok branches)
    (hwalk' : (schema'.value "allOf").walk = .ok branches')
    (hfiltered : FilteredAll env.context.visibility branches branches') (nullable : Bool) :
    compileAllOf env inner branches' nullable = compileAllOf env inner branches nullable := by
  have htwins := h.twins_branches (by decide) hwalk hfiltered
  have houtlook := h.outlook.allOf hwalk hwalk'
  have hnamed := Value.textNamed_walk (Fields.textNamed_value h.named "allOf") hwalk
  have hsettled := h.branches "allOf" (by decide) _ hwalk
  have htaken := h.taken _ hwalk
  clear hwalk hwalk'
  cases hfiltered with
  | nil => rfl
  | @cons first first' rest rest' hfirst hrest =>
    obtain ⟨hhead, -⟩ := List.forall₂_cons.mp htwins
    cases rest with
    | nil =>
      cases hrest
      show (inner first' true >>= _) = inner first true >>= _
      rw [hinner _ _ _ hhead]
    | cons second rest =>
      have hlater : List.Forall₂ (LaterBranch env) (second :: rest) rest' := by
        refine (Outcome.forall₂_mem hrest).imp ?_
        rintro b b' ⟨hb, -, hfiltered⟩
        have hmem := List.mem_cons_of_mem first hb
        refine ⟨hfiltered, hnamed b hmem, hsettled b hmem, ?_⟩
        rintro fields rfl
        exact htaken fields hb
      have hlike := allObjectLike_filtered (.cons hfirst hrest)
      specialize houtlook (by simp)
      cases hrest with
      | @cons _ second' _ rest' hsecond hrest =>
        rw [compileAllOf_cons, compileAllOf_cons, hlike, hinner _ _ _ hhead]
        rcases scans_of_outlook houtlook with ⟨f, hscan, hscan'⟩ |
          ⟨scan, scan', hscan, hscan', hconflicts, hoverridden, hleft⟩
        · rw [hscan, hscan']
          rfl
        · rw [hscan, hscan']
          have hmerge := fun m => mergeBranches_filtered hvis hinner hlater m hleft
          show (scan'.conflicts.forM addConflict >>= _) = scan.conflicts.forM addConflict >>= _
          simp only [hconflicts, hoverridden, hmerge]

/-! ## Unions -/

theorem matchingBranch_filtered {target : Value} {branches branches' : List Value}
    (h : FilteredAll env.context.visibility branches branches') :
    ∀ position, matchingBranch target position branches' = matchingBranch target position branches := by
  induction h with
  | nil => exact fun _ => rfl
  | @cons b b' branches branches' hb _ ih =>
    intro position
    rcases filterSchema_cases hb with rfl | ⟨fields, after, rfl, rfl, href, hafter⟩
    · unfold matchingBranch
      simp only [ih]
    · -- a branch that filtering goes into is no reference
      have hnull : Fields.value fields "$ref" = .null := Fields.value_eq_null (by simp [href])
      have hnull' : Fields.value after "$ref" = .null := by
        rw [hafter.value (by decide) (by decide), hnull]
      have hnext : ∀ {s : Fields} {rest : List Value}, s.value "$ref" = .null →
          matchingBranch target position (.object s :: rest) =
            matchingBranch target (position + 1) rest := by
        intro s rest hs
        simp only [matchingBranch, Value.fields, bind, Except.bind, hs]
      rw [hnext hnull, hnext hnull', ih]

theorem leftOver_filtered {ordered : Ordered} {R : Value → Value → Prop}
    {branches branches' : List Value} (h : List.Forall₂ R branches branches') :
    ∀ position, List.Forall₂ R (leftOver ordered position branches)
      (leftOver ordered position branches') := by
  induction h with
  | nil => exact fun _ => .nil
  | cons hb _ ih =>
    intro position
    rw [leftOver, leftOver]
    split
    · exact ih _
    · exact .cons hb (ih _)

/-- **A mapping puts filtered branches in the same order.** -/
theorem orderByMapping_filtered {mapping : Value} {branches branches' : List Value}
    (h : FilteredAll env.context.visibility branches branches')
    (htwins : List.Forall₂ (Twins env) branches branches') :
    Outcome.Paired (List.Forall₂ (Twins env)) (orderByMapping mapping branches)
      (orderByMapping mapping branches') := by
  have htarget : orderTarget branches' = orderTarget branches := by
    funext ordered target
    unfold orderTarget
    rw [matchingBranch_filtered h]
  unfold orderByMapping
  rw [htarget]
  refine Outcome.paired_bind fun targets _ => Outcome.paired_bind fun ordered _ => .ok ?_
  refine List.rel_append ?_ (leftOver_filtered htwins 0)
  rw [List.forall₂_same]
  exact fun v _ => .same v

theorem mapM_twins (hinner : Blind env inner) {branches branches' : List Value}
    (h : List.Forall₂ (Twins env) branches branches') :
    branches'.mapM (fun b => inner b true) = branches.mapM fun b => inner b true := by
  refine mapM_congr (h.flip.imp ?_)
  exact fun b' b htwins => hinner b b' true htwins

theorem selectBranches_of_isSet {branches : List Value} {discriminator : Value}
    (h : discriminator.isSet = true) (mapping : Value) :
    selectBranches env branches discriminator mapping = (do
      let branches ←
        (liftM (if mapping.isSet then orderByMapping mapping branches else pure branches :
          Except Fault (List Value)) : Compile (List Value))
      if ← requiredEverywhere env.schemas discriminator branches then
        return (branches, .property discriminator)
      else
        addWarning (discriminatorWarning discriminator (← session).name)
        return (branches, .unusable discriminator)) := by
  unfold selectBranches
  rw [if_pos h]
  split <;> rfl

/-- Filtered branches are put in the same order and told apart by the same. -/
theorem selectBranches_filtered {α : Type} {branches branches' : List Value}
    {discriminator mapping : Value}
    (h : FilteredAll env.context.visibility branches branches')
    (htwins : List.Forall₂ (Twins env) branches branches')
    (houtlook : discriminator.isSet = true →
      unionOutlook env.schemas discriminator mapping branches' =
        unionOutlook env.schemas discriminator mapping branches)
    {next : List Value × Selector → Compile α}
    (hnext : ∀ ordered ordered' selector, List.Forall₂ (Twins env) ordered ordered' →
      next (ordered', selector) = next (ordered, selector)) :
    (selectBranches env branches' discriminator mapping >>= next) =
      selectBranches env branches discriminator mapping >>= next := by
  cases hset : discriminator.isSet with
  | false =>
    have hplain : ∀ bs, selectBranches env bs discriminator mapping = pure (bs, .none) := by
      intro bs
      unfold selectBranches
      rw [if_neg (by simp [hset])]
    rw [hplain, hplain]
    exact hnext _ _ _ htwins
  | true =>
    have hordered : Outcome.Paired (List.Forall₂ (Twins env))
        (if mapping.isSet then orderByMapping mapping branches else pure branches)
        (if mapping.isSet then orderByMapping mapping branches' else pure branches') := by
      split
      · exact orderByMapping_filtered h htwins
      · exact .ok htwins
    specialize houtlook hset
    unfold unionOutlook at houtlook
    rw [selectBranches_of_isSet hset, selectBranches_of_isSet hset]
    generalize (if mapping.isSet then orderByMapping mapping branches else pure branches :
      Except Fault (List Value)) = left at hordered houtlook ⊢
    generalize (if mapping.isSet then orderByMapping mapping branches' else pure branches' :
      Except Fault (List Value)) = right at hordered houtlook ⊢
    cases hordered with
    | error => rfl
    | @ok ordered ordered' ho =>
      replace houtlook : requiredEverywhere env.schemas discriminator ordered' =
        requiredEverywhere env.schemas discriminator ordered := houtlook
      show ((liftM (requiredEverywhere env.schemas discriminator ordered') : Compile Bool) >>= _) >>=
          next =
        ((liftM (requiredEverywhere env.schemas discriminator ordered) : Compile Bool) >>= _) >>= next
      rw [houtlook, bind_assoc, bind_assoc]
      refine congrArg _ (funext fun required => ?_)
      cases required with
      | true => exact hnext _ _ _ ho
      | false =>
        show (session >>= _) >>= next = (session >>= _) >>= next
        rw [bind_assoc, bind_assoc]
        refine congrArg _ (funext fun s => ?_)
        show (addWarning _ >>= _) >>= next = (addWarning _ >>= _) >>= next
        rw [bind_assoc, bind_assoc]
        exact congrArg _ (funext fun _ => hnext _ _ _ ho)

/-- **A union that sees the same in its branches as in the filtered ones.** -/
theorem Undeclared.union_eq {schema schema' : Fields} (h : Undeclared env schema schema')
    (hinner : Blind env inner) {kind : UnionKind} {branches branches' : List Value}
    {discriminator : Fields}
    (hwalk : (schema.value kind.keyword).walk = .ok branches)
    (hwalk' : (schema'.value kind.keyword).walk = .ok branches')
    (hfiltered : FilteredAll env.context.visibility branches branches')
    (htold : (schema.value "discriminator").fieldsIfSet = .ok discriminator)
    (nullable admitting : Bool) :
    compileUnion env inner kind branches' (discriminator.value "propertyName")
        (discriminator.value "mapping") nullable admitting =
      compileUnion env inner kind branches (discriminator.value "propertyName")
        (discriminator.value "mapping") nullable admitting := by
  have hkind : kind.keyword ∈ compositionKeywords := by cases kind <;> decide
  have htwins := h.twins_branches hkind hwalk hfiltered
  have houtlook := fun hlength => h.outlook.union hwalk hwalk' hlength htold
  clear hwalk hwalk'
  cases hfiltered with
  | nil => rfl
  | @cons first first' rest rest' hfirst hrest =>
    obtain ⟨hhead, -⟩ := List.forall₂_cons.mp htwins
    cases hrest with
    | nil =>
      show (inner first' true >>= _) = inner first true >>= _
      rw [hinner _ _ _ hhead]
    | @cons second second' rest rest' hsecond hrest =>
      refine selectBranches_filtered (.cons hfirst (.cons hsecond hrest)) htwins (houtlook (by simp)) ?_
      intro ordered ordered' selector hordered
      dsimp only
      rw [mapM_twins hinner hordered]

end SchemaForge.Compile
