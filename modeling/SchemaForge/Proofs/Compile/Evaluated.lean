import SchemaForge.Compile.Unevaluated
import SchemaForge.Proofs.Compile.BranchWalk
import SchemaForge.Proofs.Compile.FilteredCompositions
import SchemaForge.Proofs.Compile.Shapes

/-!
# Which properties count as evaluated

Two functions gather the properties that a schema declares. One follows references and `allOf` members
as far as they lead (`propertiesOf_iff`). The other, for the check of unevaluated properties, looks at
the schema, its branches and the schemas that these refer to, and no further (`evaluatedNames_iff`).

So the check spares what flat branches declare, but what a branch inherits from further off counts as
unevaluated and is forbidden.
-/

namespace SchemaForge.Compile

open Schema

/-! ## Properties on walks -/

/-- A schema declares a property of its own. -/
def HasProperty (schema : Fields) (name : Scalar) : Prop := (ownProperties schema).hasName name = true

/-- A schema without a reference that a value walks to declares a property. -/
def Contributes (schemas : Fields) (v : Value) (name : Scalar) : Prop :=
  ∃ schema : Fields, WalksTo schemas v (.object schema) ∧ schema.has "$ref" = false ∧
    HasProperty schema name

variable {env : Environment} {schemas schema fields : Fields} {name : Scalar} {v branch : Value}

theorem hasName_mergeNew (fields more : Fields) :
    (mergeNew fields more).hasName name = true ↔
      fields.hasName name = true ∨ more.hasName name = true := by
  rw [Fields.hasName, lookup_mergeNew, Option.isSome_or, Bool.or_eq_true]
  rfl

/-- **By induction on the steps left: the properties found are those that the walk comes by**, as far
as no reference is followed again. -/
theorem branchProperties_iff : ∀ {fuel : Nat} {seen : List String} {v : Value} {properties : Fields},
    Bounded schemas fuel seen v → branchProperties schemas fuel seen v = .ok properties →
    (properties.hasName name = true ↔ MeetsAvoiding schemas seen (HasProperty · name) v)
  | 0, _, _, _, hbound, _ => absurd hbound not_bounded_zero
  | fuel + 1, seen, v, properties, hbound, h => by
    obtain ⟨ref?, href, h⟩ := Outcome.bind_eq_ok.mp h
    cases ref? with
    | some ref =>
      have hrefers := branchRef?_eq_some href
      rw [meetsAvoiding_reference hrefers]
      dsimp only at h
      split at h
      · rename_i hnull
        cases h
        exact iff_of_false nofun fun hmeets => hmeets.1 hnull
      · rename_i hknown
        split at h
        · rename_i hseen
          cases h
          exact iff_of_false nofun fun hmeets => hmeets.2.1 (by simpa using hseen)
        · rename_i hfresh
          have hfresh : ref ∉ seen := by simpa using hfresh
          rw [branchProperties_iff (hbound.target hrefers hknown hfresh) h]
          exact ⟨fun hmeets => ⟨hknown, hfresh, hmeets⟩, fun hmeets => hmeets.2.2⟩
    | none =>
      dsimp only at h
      obtain ⟨fields, hfields, h⟩ := Outcome.bind_eq_ok.mp h
      obtain ⟨members, hmembers, h⟩ := Outcome.bind_eq_ok.mp h
      obtain ⟨inherited, hinherited, h⟩ := Outcome.bind_eq_ok.mp h
      obtain ⟨own, hown, h⟩ := Outcome.bind_eq_ok.mp h
      cases h
      obtain rfl := Value.eq_object_of_fields hfields
      have hnoRef := branchRef?_eq_none href
      have hfound : inherited.hasName name = true ↔ Fields.hasName [] name = true ∨
          ∃ m ∈ members, MeetsAvoiding schemas seen (HasProperty · name) m :=
        foldlM_joined (fun found more => hasName_mergeNew found more) (fun m hm found hfound =>
          branchProperties_iff (hbound.member hnoRef hmembers hm) hfound) hinherited
      rw [hasName_mergeNew, hfound, meetsAvoiding_object hnoRef hmembers, or_comm, HasProperty,
        ← eq_ownProperties hown]
      exact or_congr_right (or_iff_right nofun)

/-- **The properties gathered for a branch are those that a schema on a walk from it declares.** -/
theorem propertiesOf_iff {properties : Fields} (h : propertiesOf schemas v = .ok properties)
    (name : Scalar) : properties.hasName name = true ↔ Contributes schemas v name := by
  rw [branchProperties_iff (bounded_walkBound schemas v) h]
  simp only [MeetsAvoiding, walksAvoiding_nil, Contributes]

/-! ## Properties nearby -/

/-- A branch describes a schema: itself, or the target if it is a reference. -/
inductive BranchSchema (schemas : Fields) : Value → Fields → Prop where
  | inline {fields : Fields} (own : fields.has "$ref" = false) :
      BranchSchema schemas (.object fields) fields
  | target {v : Value} {ref : String} {fields : Fields} (refers : RefersBy v ref)
      (known : schemas.value (Naming.targetName ref) = .object fields) : BranchSchema schemas v fields

/-- A schema or what one of its branches describes declares a property. -/
def DeclaresNearby (schemas schema : Fields) (name : Scalar) : Prop :=
  HasProperty schema name ∨ ∃ keyword ∈ ["allOf", "oneOf", "anyOf"], ∃ branches,
    (schema.value keyword).walkIfSet = .ok branches ∧
      ∃ branch ∈ branches, ∃ fields, BranchSchema schemas branch fields ∧ HasProperty fields name

/-- The properties that a branch describes. -/
def namesNearby (env : Environment) (branch : Value) : Except Fault (List Scalar) :=
  match branch with
  | .object fields => do
    let target ←
      match Fields.get? fields "$ref" with
      | some ref => do pure ((← env.resolve? ref).getD .null)
      | none => pure (.object fields)
    let target ← target.fieldsIfSet
    let properties ← (target.value "properties").fieldsIfSet
    return properties.names
  | _ => .ok []

theorem branchNames_eq (env : Environment) (schema : Fields) (keyword : String) :
    branchNames env schema keyword = do
      let branches ← (schema.value keyword).walkIfSet
      return (← branches.mapM (namesNearby env)).flatten := rfl

theorem any_names (fields : Fields) (name : Scalar) :
    fields.names.any (·.same name) = fields.hasName name := by
  induction fields with
  | nil => rfl
  | cons f fields ih =>
    rw [Fields.names, List.map_cons, List.any_cons, Fields.hasName, Fields.lookup]
    cases f.1.same name
    · exact ih
    · rfl

theorem BranchSchema.unique {fields' : Fields} (h : BranchSchema schemas branch fields)
    (h' : BranchSchema schemas branch fields') : fields = fields' := by
  cases h with
  | inline own =>
    cases h' with
    | inline _ => rfl
    | target refers _ => exact absurd refers (not_refersBy own)
  | target refers known =>
    cases h' with
    | inline own => exact absurd refers (not_refersBy own)
    | target refers' known' =>
      rw [refers.unique refers', known'] at known
      exact (Value.object.inj known).symm

/-- The names of what a document holds as properties, read as a schema. -/
theorem names_of_target {target : Value} {fields properties : Fields}
    (hfields : target.fieldsIfSet = .ok fields)
    (hproperties : (fields.value "properties").fieldsIfSet = .ok properties) :
    properties.names.any (·.same name) = true ↔
      ∃ schema, target = .object schema ∧ HasProperty schema name := by
  rw [any_names]
  constructor
  · intro hname
    rw [eq_ownProperties hproperties] at hname
    obtain rfl | rfl := Value.fieldsIfSet_eq_ok hfields
    · cases hname
    · exact ⟨fields, rfl, hname⟩
  · rintro ⟨schema, rfl, hname⟩
    rw [fieldsIfSet_object] at hfields
    cases hfields
    rwa [eq_ownProperties hproperties]

theorem BranchSchema.exists_object (h : BranchSchema schemas branch fields) :
    ∃ own, branch = .object own := by
  cases h with
  | inline own => exact ⟨_, rfl⟩
  | target refers known =>
    obtain ⟨own, rfl, -⟩ := refers
    exact ⟨own, rfl⟩

theorem resolve?_eq_ok {ref : Value} {target? : Option Value} (h : env.resolve? ref = .ok target?) :
    ∃ t, ref = .text t ∧ target?.getD .null = env.schemas.value (Naming.targetName t) := by
  obtain ⟨n, hn, h⟩ := Outcome.bind_eq_ok.mp h
  obtain ⟨t, rfl, rfl⟩ : ∃ t, ref = .text t ∧ n = Naming.targetName t := by
    unfold Naming.targetOf at hn
    split at hn
    · cases hn
      exact ⟨_, rfl, rfl⟩
    · cases hn
  refine ⟨t, rfl, ?_⟩
  split at h
  · rename_i hnull
    cases h
    exact hnull.symm
  · cases h
    rfl

theorem namesNearby_iff {names : List Scalar} (h : namesNearby env branch = .ok names) :
    names.any (·.same name) = true ↔
      ∃ fields, BranchSchema env.schemas branch fields ∧ HasProperty fields name := by
  unfold namesNearby at h
  split at h
  · rename_i fields
    dsimp only at h
    split at h
    · rename_i ref hget
      obtain ⟨target?, hresolved, h⟩ := Outcome.bind_eq_ok.mp h
      rw [pure_bind] at h
      obtain ⟨schema, hschema, h⟩ := Outcome.bind_eq_ok.mp h
      obtain ⟨properties, hproperties, h⟩ := Outcome.bind_eq_ok.mp h
      cases h
      obtain ⟨t, rfl, htarget⟩ := resolve?_eq_ok hresolved
      rw [htarget] at hschema
      rw [names_of_target hschema hproperties]
      have hrefers : RefersBy (.object fields) t := ⟨fields, rfl, hget⟩
      refine exists_congr fun found => and_congr_left fun _ => ⟨.target hrefers, fun hfound => ?_⟩
      cases hfound with
      | inline own => exact absurd hrefers (not_refersBy own)
      | target refers known => rwa [hrefers.unique refers]
    · rename_i hget
      rw [pure_bind] at h
      obtain ⟨schema, hschema, h⟩ := Outcome.bind_eq_ok.mp h
      obtain ⟨properties, hproperties, h⟩ := Outcome.bind_eq_ok.mp h
      cases h
      have hown : Fields.has fields "$ref" = false := Fields.has_of_get?_none hget
      rw [names_of_target hschema hproperties]
      refine exists_congr fun found => and_congr_left fun _ => ⟨?_, fun hfound => ?_⟩
      · rintro heq
        cases heq
        exact .inline hown
      · rw [hfound.unique (.inline hown)]
  · rename_i hother
    cases h
    rw [List.any_nil]
    refine iff_of_false Bool.false_ne_true ?_
    rintro ⟨fields, hschema, -⟩
    obtain ⟨own, rfl⟩ := hschema.exists_object
    exact hother own rfl

/-- The names under a keyword are those that its branches declare. -/
theorem branchNames_iff {keyword : String} {names : List Scalar}
    (h : branchNames env schema keyword = .ok names) :
    names.any (·.same name) = true ↔ ∃ branches, (schema.value keyword).walkIfSet = .ok branches ∧
      ∃ branch ∈ branches, ∃ fields, BranchSchema env.schemas branch fields ∧
        HasProperty fields name := by
  rw [branchNames_eq] at h
  obtain ⟨branches, hbranches, h⟩ := Outcome.bind_eq_ok.mp h
  obtain ⟨found, hfound, h⟩ := Outcome.bind_eq_ok.mp h
  cases h
  have hall := Outcome.forall₂_of_mapM hfound
  rw [List.any_flatten, List.any_eq_true]
  constructor
  · rintro ⟨names, hnames, hname⟩
    obtain ⟨branch, hbranch, hnearby⟩ := Outcome.exists_left_of_mem hall hnames
    exact ⟨branches, hbranches, branch, hbranch, (namesNearby_iff hnearby).mp hname⟩
  · rintro ⟨branches', hbranches', branch, hbranch, hschema⟩
    rw [hbranches] at hbranches'
    cases hbranches'
    obtain ⟨names, hnames, hnearby⟩ := Outcome.exists_right_of_mem hall hbranch
    exact ⟨names, hnames, (namesNearby_iff hnearby).mpr hschema⟩

/-- **The evaluated properties are those declared nearby.** -/
theorem evaluatedNames_iff {names : List Scalar} (h : evaluatedNames env schema = .ok names)
    (name : Scalar) :
    names.any (·.same name) = true ↔ DeclaresNearby env.schemas schema name := by
  obtain ⟨own, hown, h⟩ := Outcome.bind_eq_ok.mp h
  obtain ⟨found, hfound, h⟩ := Outcome.bind_eq_ok.mp h
  cases h
  have hall := Outcome.forall₂_of_mapM hfound
  have hdistinct : ∀ names : List Scalar, (distinctNames names).any (·.same name) = true ↔
      names.any (·.same name) = true := by
    intro names
    have hunion : (unionNames [] names).any (·.same name) = true ↔
      ([] : List Scalar).any (·.same name) = true ∨ names.any (·.same name) = true := unionNames_any
    exact hunion.trans (or_iff_right nofun)
  rw [hdistinct, List.any_append, Bool.or_eq_true, any_names, List.any_flatten, List.any_eq_true,
    eq_ownProperties hown]
  refine or_congr_right ⟨?_, ?_⟩
  · rintro ⟨names, hnames, hname⟩
    obtain ⟨keyword, hkeyword, hbranches⟩ := Outcome.exists_left_of_mem hall hnames
    exact ⟨keyword, hkeyword, (branchNames_iff hbranches).mp hname⟩
  · rintro ⟨keyword, hkeyword, hbranches⟩
    obtain ⟨names, hnames, hfound⟩ := Outcome.exists_right_of_mem hall hkeyword
    exact ⟨names, hnames, (branchNames_iff hfound).mpr hbranches⟩

/-! ## Flat branches -/

/-- A branch is flat if the schema that it describes, if any, leads no further. -/
def Flat (schemas : Fields) (branch : Value) : Prop :=
  ∀ fields, BranchSchema schemas branch fields →
    fields.has "$ref" = false ∧ (fields.value "allOf").walkIfSet = .ok []

/-- A walk from a schema that leads no further stays there. -/
theorem eq_of_walksTo (hown : fields.has "$ref" = false)
    (hmembers : (fields.value "allOf").walkIfSet = .ok []) (h : WalksTo schemas (.object fields) v) :
    v = .object fields := by
  obtain rfl | ⟨w, hstep, -⟩ := h.cases_head
  · rfl
  · obtain ⟨members, hmembers', hlisted⟩ := hstep.exists_members hown
    rw [hmembers] at hmembers'
    cases hmembers'
    cases hlisted

theorem LeadsTo.exists_object {w : Value} (h : LeadsTo schemas v w) :
    ∃ fields, v = .object fields := by
  cases h with
  | target refers known =>
    obtain ⟨fields, rfl, -⟩ := refers
    exact ⟨fields, rfl⟩
  | member own walked listed => exact ⟨_, rfl⟩

/-- A walk from a flat branch ends in the schema that it describes. -/
theorem Flat.branchSchema (hflat : Flat schemas branch) (hplain : schema.has "$ref" = false)
    (h : WalksTo schemas branch (.object schema)) : BranchSchema schemas branch schema := by
  obtain rfl | ⟨w, hstep, hrest⟩ := h.cases_head
  · exact .inline hplain
  · cases hstep with
    | @target _ ref refers known =>
      obtain ⟨fields, htarget⟩ : ∃ fields, schemas.value (Naming.targetName ref) = .object fields := by
        obtain heq | ⟨u, hstep, -⟩ := hrest.cases_head
        · exact ⟨schema, heq⟩
        · exact hstep.exists_object
      -- the walk cannot go on from the target of a flat branch
      have hschema := BranchSchema.target refers htarget
      obtain ⟨hown, hmembers⟩ := hflat fields hschema
      rw [htarget] at hrest
      cases eq_of_walksTo hown hmembers hrest
      exact hschema
    | member own walked listed =>
      obtain ⟨-, hmembers⟩ := hflat _ (.inline own)
      rw [hmembers] at walked
      cases walked
      cases listed

/-- What flat branches contribute is declared nearby. -/
theorem declaresNearby_of_flat (hplain : schema.has "$ref" = false) {branches : List Value}
    (hbranches : (schema.value "allOf").walkIfSet = .ok branches)
    (hflat : ∀ branch ∈ branches, Flat schemas branch)
    (h : Contributes schemas (.object schema) name) : DeclaresNearby schemas schema name := by
  obtain ⟨found, hwalk, hfound, hname⟩ := h
  obtain heq | ⟨w, hstep, hrest⟩ := hwalk.cases_head
  · cases heq
    exact Or.inl hname
  · obtain ⟨members, hmembers, hlisted⟩ := hstep.exists_members hplain
    rw [hbranches] at hmembers
    cases hmembers
    exact Or.inr ⟨"allOf", .head _, branches, hbranches, w, hlisted, found,
      (hflat w hlisted).branchSchema hfound hrest, hname⟩

/-! ## Well-formed schemas -/

/-- A schema holds a text as its reference, something to walk over as its `allOf` members and an
object as its properties, if anything. -/
structure Readable (schema : Fields) : Prop where
  reference : ∀ ref, schema.get? "$ref" = some ref → ∃ t, ref = .text t
  members : ∃ members, (schema.value "allOf").walkIfSet = .ok members
  properties : ∃ properties, (schema.value "properties").fieldsIfSet = .ok properties

/-- Every value on a walk is such a schema. -/
def ReadableFrom (schemas : Fields) (v : Value) : Prop :=
  ∀ u, WalksTo schemas v u → ∃ fields, u = .object fields ∧ Readable fields

theorem ReadableFrom.step {w : Value} (h : ReadableFrom schemas v) (hstep : LeadsTo schemas v w) :
    ReadableFrom schemas w :=
  fun u hu => h u (.head hstep hu)

theorem exists_foldlM {α β : Type} {f : β → α → Except Fault β} : ∀ {l : List α} {b : β},
    (∀ a ∈ l, ∀ b, ∃ b', f b a = .ok b') → ∃ b', l.foldlM f b = .ok b'
  | [], b, _ => ⟨b, rfl⟩
  | a :: l, b, h => by
    obtain ⟨hfirst, hrest⟩ := List.forall_mem_cons.mp h
    obtain ⟨b', hb'⟩ := hfirst b
    rw [List.foldlM_cons, hb']
    exact exists_foldlM hrest

theorem branchRef?_of_refersBy {ref : String} (h : RefersBy v ref) :
    branchRef? v = .ok (some ref) := by
  obtain ⟨fields, rfl, hget⟩ := h
  have hhas : (Value.object fields).holds "$ref" = .ok true := by
    rw [Value.holds, Fields.has_of_get? hget]
  have hentry : (Value.object fields).entry "$ref" = .ok (.text ref) := by
    rw [Value.entry, hget]
  unfold branchRef?
  rw [hhas, Outcome.ok_bind, if_pos rfl, hentry]
  rfl

theorem exists_branchProperties : ∀ (fuel : Nat) (seen : List String) {v : Value},
    ReadableFrom schemas v → ∃ properties, branchProperties schemas fuel seen v = .ok properties
  | 0, _, _, _ => ⟨[], rfl⟩
  | fuel + 1, seen, v, h => by
    obtain ⟨fields, rfl, hread⟩ := h v .refl
    unfold branchProperties
    cases hget : Fields.get? fields "$ref" with
    | some ref =>
      obtain ⟨t, rfl⟩ := hread.reference ref hget
      have hrefers : RefersBy (.object fields) t := ⟨fields, rfl, hget⟩
      rw [branchRef?_of_refersBy hrefers, Outcome.ok_bind]
      dsimp only
      split
      · exact ⟨[], rfl⟩
      · rename_i hknown
        split
        · exact ⟨[], rfl⟩
        · exact exists_branchProperties fuel (t :: seen) (h.step (.target hrefers hknown))
    | none =>
      have hown : Fields.has fields "$ref" = false := Fields.has_of_get?_none hget
      obtain ⟨members, hmembers⟩ := hread.members
      obtain ⟨properties, hproperties⟩ := hread.properties
      obtain ⟨inherited, hinherited⟩ : ∃ inherited, members.foldlM (fun found member => do
          return mergeNew found (← branchProperties schemas fuel seen member)) [] =
            Except.ok inherited := by
        refine exists_foldlM fun m hm found => ?_
        obtain ⟨more, hmore⟩ :=
          exists_branchProperties fuel seen (h.step (.member hown hmembers hm))
        rw [hmore]
        exact ⟨_, rfl⟩
      rw [branchRef?_object fields hown, Outcome.ok_bind]
      dsimp only [Value.fields]
      rw [Outcome.ok_bind, hmembers, Outcome.ok_bind, hinherited, Outcome.ok_bind, hproperties]
      exact ⟨_, rfl⟩

theorem exists_namesNearby (h : ReadableFrom env.schemas branch) :
    ∃ names, namesNearby env branch = .ok names := by
  obtain ⟨fields, rfl, hread⟩ := h branch .refl
  have hnames : ∀ (target : Value) (fields : Fields), target.fieldsIfSet = .ok fields →
      (∃ properties, (fields.value "properties").fieldsIfSet = .ok properties) →
      ∃ names, (do
        let fields ← target.fieldsIfSet
        let properties ← (fields.value "properties").fieldsIfSet
        return properties.names) = Except.ok names := by
    rintro target fields hfields ⟨properties, hproperties⟩
    rw [hfields, Outcome.ok_bind, hproperties]
    exact ⟨_, rfl⟩
  unfold namesNearby
  dsimp only
  cases hget : Fields.get? fields "$ref" with
  | none => exact hnames _ _ (fieldsIfSet_object fields) hread.properties
  | some ref =>
    obtain ⟨t, rfl⟩ := hread.reference ref hget
    have hrefers : RefersBy (.object fields) t := ⟨fields, rfl, hget⟩
    obtain ⟨target?, htarget⟩ : ∃ target?, env.resolve? (.text t) = .ok target? := by
      unfold Environment.resolve? Naming.targetOf
      rw [Outcome.ok_bind]
      split <;> exact ⟨_, rfl⟩
    obtain ⟨t', ht', hvalue⟩ := resolve?_eq_ok htarget
    cases ht'
    dsimp only
    rw [htarget, Outcome.ok_bind, pure_bind]
    by_cases hnull : env.schemas.value (Naming.targetName t) = .null
    · refine hnames _ [] ?_ ⟨[], rfl⟩
      rw [hvalue, hnull]
      rfl
    · obtain ⟨fields', hfields', hread'⟩ := h _ (.head (.target hrefers hnull) .refl)
      refine hnames _ fields' ?_ hread'.properties
      rw [hvalue, hfields', fieldsIfSet_object]

/-- A composition of well-formed schemas has evaluated names. -/
theorem exists_evaluatedNames (h : ReadableFrom env.schemas (.object schema))
    (hplain : schema.has "$ref" = false)
    (hunions : ∀ keyword ∈ ["oneOf", "anyOf"], ∃ branches,
      (schema.value keyword).walkIfSet = .ok branches ∧
        ∀ branch ∈ branches, ReadableFrom env.schemas branch) :
    ∃ names, evaluatedNames env schema = .ok names := by
  obtain ⟨fields, hfields, hread⟩ := h _ .refl
  cases hfields
  obtain ⟨members, hmembers⟩ := hread.members
  obtain ⟨own, hown⟩ := hread.properties
  obtain ⟨found, hfound⟩ : ∃ found, ["allOf", "oneOf", "anyOf"].mapM (branchNames env schema) =
      Except.ok found := by
    refine Outcome.exists_mapM_of_forall fun keyword hkeyword => ?_
    obtain ⟨branches, hbranches, hbranch⟩ : ∃ branches,
        (schema.value keyword).walkIfSet = .ok branches ∧
          ∀ branch ∈ branches, ReadableFrom env.schemas branch := by
      obtain rfl | hkeyword := List.mem_cons.mp hkeyword
      · exact ⟨members, hmembers, fun m hm => h.step (.member hplain hmembers hm)⟩
      · exact hunions keyword hkeyword
    obtain ⟨names, hnames⟩ := Outcome.exists_mapM_of_forall fun branch hb =>
      exists_namesNearby (hbranch branch hb)
    rw [branchNames_eq, hbranches, Outcome.ok_bind, hnames]
    exact ⟨_, rfl⟩
  unfold evaluatedNames
  rw [hown, Outcome.ok_bind, hfound]
  exact ⟨_, rfl⟩

/-! ## Compositions -/

/-- **What a composition declares, and what of it counts as evaluated.** The properties gathered for
an `allOf` composition are those that a schema on a walk from it declares, and those evaluated are the
ones declared nearby; so with flat branches every declared property is evaluated. -/
theorem evaluated_of_declared {branches : List Value}
    (hform : classify schema = .ok (.allOf branches)) :
    (ReadableFrom env.schemas (.object schema) →
      (∀ keyword ∈ ["oneOf", "anyOf"], ∃ branches, (schema.value keyword).walkIfSet = .ok branches ∧
        ∀ branch ∈ branches, ReadableFrom env.schemas branch) →
      ∃ properties names, propertiesOf env.schemas (.object schema) = .ok properties ∧
        evaluatedNames env schema = .ok names) ∧
    ∀ properties names, propertiesOf env.schemas (.object schema) = .ok properties →
      evaluatedNames env schema = .ok names → ∀ name : Scalar,
        (properties.hasName name = true ↔ Contributes env.schemas (.object schema) name) ∧
        (names.any (·.same name) = true ↔ DeclaresNearby env.schemas schema name) ∧
        ((∀ branch ∈ branches, Flat env.schemas branch) → properties.hasName name = true →
          names.any (·.same name) = true) := by
  have hplain := has_ref_of_classify_allOf hform
  have hbranches := walkIfSet_of_walk (walk_value_allOf hform)
  refine ⟨fun hread hunions => ?_, fun properties names hproperties hnames name => ?_⟩
  · obtain ⟨properties, hproperties⟩ := exists_branchProperties _ [] hread
    obtain ⟨names, hnames⟩ := exists_evaluatedNames hread hplain hunions
    exact ⟨properties, names, hproperties, hnames⟩
  · have hfound := propertiesOf_iff hproperties name
    have hevaluated := evaluatedNames_iff hnames name
    exact ⟨hfound, hevaluated, fun hflat hname =>
      hevaluated.mpr (declaresNearby_of_flat hplain hbranches hflat (hfound.mp hname))⟩

/-- An object with one property, and a composition that extends it by another. -/
def baseAndMid : Fields :=
  [(.text "Base", .object [(.text "type", .text "object"),
     (.text "properties", .object [(.text "id", .object [(.text "type", .text "string")])])]),
   (.text "Mid", .object [(.text "allOf", .list [refTo "Base",
     .object [(.text "properties",
       .object [(.text "name", .object [(.text "type", .text "string")])])]])])]

/-- A closed schema that extends another one. -/
def closedOver (name : String) : Fields :=
  [(.text "allOf", .list [refTo name]), (.text "unevaluatedProperties", .bool false)]

theorem evaluated_of_declared_base : ∃ env properties names,
    Environment.ofSchemas baseAndMid = .ok env ∧
    propertiesOf env.schemas (.object (closedOver "Base")) = .ok properties ∧
    evaluatedNames env (closedOver "Base") = .ok names ∧
    properties.hasName (.text "id") = true ∧ names.any (·.same (.text "id")) = true := by
  obtain ⟨env, properties, names, henv, hschemas, hproperties, hnames, hfound⟩ :
      ∃ env properties names, Environment.ofSchemas baseAndMid = .ok env ∧ env.schemas = baseAndMid ∧
        propertiesOf env.schemas (.object (closedOver "Base")) = .ok properties ∧
        evaluatedNames env (closedOver "Base") = .ok names ∧
        properties.hasName (.text "id") = true :=
    ⟨_, _, _, rfl, rfl, rfl, rfl, by decide⟩
  have hflat : ∀ branch ∈ [refTo "Base"], Flat env.schemas branch := by
    intro branch hbranch fields hfields
    rw [List.mem_singleton.mp hbranch, hschemas] at hfields
    have hrefers : RefersBy (refTo "Base") "#/components/schemas/Base" := ⟨_, rfl, rfl⟩
    cases hfields.unique (.target hrefers rfl)
    exact ⟨rfl, rfl⟩
  exact ⟨env, properties, names, henv, hproperties, hnames, hfound,
    ((evaluated_of_declared rfl).2 properties names hproperties hnames _).2.2 hflat hfound⟩

/-- **What is inherited from further off counts as unevaluated**, although it is declared. -/
theorem inherited_unevaluated : ∃ env properties,
    Environment.ofSchemas baseAndMid = .ok env ∧
    propertiesOf env.schemas (.object (closedOver "Mid")) = .ok properties ∧
    properties.names = [.text "id", .text "name"] ∧ evaluatedNames env (closedOver "Mid") = .ok [] :=
  ⟨_, _, rfl, rfl, rfl, rfl⟩

end SchemaForge.Compile
