import SchemaForge.Compile.AllOf
import SchemaForge.Proofs.Compile.FilteredBranches
import SchemaForge.Proofs.Document.SetTexts

/-!
# Which properties branches lose

The branches of an `allOf` are scanned in order. What is seen of a name is its first definition, so a
branch loses exactly those of its properties whose first definition has another canonical text, and
each of them is a conflict.
-/

namespace SchemaForge.Compile

open Reference

/-! ## Properties of branches -/

/-- No two fields have the same name. -/
abbrev Apart (fields : Fields) : Prop := fields.Pairwise fun f g => f.1.same g.1 = false

section Properties

variable {fields more : Fields} {n : Scalar}

theorem hasName_eq_false : fields.hasName n = false ↔ ∀ f ∈ fields, f.1.same n = false := by
  rw [Fields.hasName, Option.isSome_eq_false_iff, Option.isNone_iff_eq_none,
    Fields.lookup_eq_none_iff]

theorem apart_append_singleton {f : Scalar × Value} :
    Apart (fields ++ [f]) ↔ Apart fields ∧ ∀ g ∈ fields, g.1.same f.1 = false := by
  simp [Apart, List.pairwise_append]

theorem apart_putNew {k : Scalar} {v : Value} (h : Apart fields) : Apart (fields.putNew k v) := by
  unfold Fields.putNew
  split
  · exact h
  · rename_i hname
    exact apart_append_singleton.mpr ⟨h, hasName_eq_false.mp (by simpa using hname)⟩

theorem apart_mergeNew : ∀ {more fields : Fields}, Apart fields → Apart (mergeNew fields more)
  | [], _, h => h
  | f :: more, fields, h =>
    show Apart (mergeNew (fields.putNew f.1 f.2) more) from apart_mergeNew (apart_putNew h)

theorem lookup_putNew (n k : Scalar) (v : Value) (fields : Fields) :
    Fields.lookup n (fields.putNew k v) =
      (Fields.lookup n fields).or (if k.same n then some v else none) := by
  unfold Fields.putNew
  split
  · rename_i hname
    -- the name was there already
    obtain ⟨w, hw⟩ := Option.isSome_iff_exists.mp hname
    cases hk : k.same n with
    | false => exact Option.or_none.symm
    | true =>
      rw [← Fields.lookup_congr hk, hw]
      rfl
  · rw [Fields.lookup_append, Fields.lookup, Fields.lookup]

theorem lookup_mergeNew (n : Scalar) : ∀ more fields : Fields,
    Fields.lookup n (mergeNew fields more) = (Fields.lookup n fields).or (Fields.lookup n more)
  | [], _ => Option.or_none.symm
  | (k, v) :: more, fields => by
    refine (lookup_mergeNew n more _).trans ?_
    rw [lookup_putNew, Option.or_assoc, Fields.lookup]
    cases k.same n <;> rfl

/-- Fields that are all new are added as they are. -/
theorem mergeNew_of_apart : ∀ {more fields : Fields}, Apart (fields ++ more) →
    mergeNew fields more = fields ++ more
  | [], fields, _ => (List.append_nil fields).symm
  | f :: more, fields, h => by
    have hsplit : fields ++ f :: more = (fields ++ [f]) ++ more := by simp
    rw [hsplit] at h ⊢
    have hnew := (apart_append_singleton.mp (List.pairwise_append.mp h).1).2
    have hput : fields.putNew f.1 f.2 = fields ++ [f] := by
      rw [Fields.putNew, if_neg (by simp [hasName_eq_false.mpr hnew])]
    rw [← mergeNew_of_apart h]
    show mergeNew (fields.putNew f.1 f.2) more = _
    rw [hput]

/-- **A branch contributes one definition of a name.** -/
theorem apart_branchProperties {schemas : Fields} : ∀ {fuel : Nat} {seen : List String}
    {branch : Value} {properties : Fields},
    branchProperties schemas fuel seen branch = .ok properties → Apart properties
  | 0, _, _, _, h => by
    cases h
    exact .nil
  | fuel + 1, seen, branch, properties, h => by
    obtain ⟨ref?, -, h⟩ := Outcome.bind_eq_ok.mp h
    cases ref? with
    | some ref =>
      dsimp only at h
      split at h
      · cases h
        exact .nil
      · split at h
        · cases h
          exact .nil
        · exact apart_branchProperties h
    | none =>
      obtain ⟨fields, -, h⟩ := Outcome.bind_eq_ok.mp h
      obtain ⟨members, -, h⟩ := Outcome.bind_eq_ok.mp h
      obtain ⟨inherited, hinherited, h⟩ := Outcome.bind_eq_ok.mp h
      obtain ⟨own, -, h⟩ := Outcome.bind_eq_ok.mp h
      cases h
      refine apart_mergeNew ?_
      -- what is inherited is merged from the members one by one
      have hall : ∀ {members : List Value} {found inherited : Fields}, Apart found →
          members.foldlM (fun found member => do
            return mergeNew found (← branchProperties schemas fuel seen member)) found =
              .ok inherited → Apart inherited := by
        intro members
        induction members with
        | nil =>
          intro found inherited hfound h
          cases h
          exact hfound
        | cons member members ih =>
          intro found inherited hfound h
          rw [List.foldlM_cons] at h
          obtain ⟨next, hnext, h⟩ := Outcome.bind_eq_ok.mp h
          obtain ⟨more, -, hnext⟩ := Outcome.bind_eq_ok.mp hnext
          cases hnext
          exact ih (apart_mergeNew hfound) h
      exact hall .nil hinherited

end Properties

/-! ## First definitions -/

variable {declared before : List Fields} {done rest properties : Fields} {n k : Scalar}
  {d d' definition : Value} {seen : List Seen} {scan scan' : Scan} {losing losing' : List Scalar}
  {source : String}

/-- The first definition of a name among the properties of several branches. -/
def firstDefinition (declared : List Fields) (n : Scalar) : Option Value :=
  declared.findSome? (Fields.lookup n)

theorem firstDefinition_append (declared more : List Fields) (n : Scalar) :
    firstDefinition (declared ++ more) n =
      (firstDefinition declared n).or (firstDefinition more n) := by
  simp [firstDefinition, List.findSome?_append]

theorem firstDefinition_cons (properties : Fields) (declared : List Fields) (n : Scalar) :
    firstDefinition (properties :: declared) n =
      (Fields.lookup n properties).or (firstDefinition declared n) := by
  rw [firstDefinition, List.findSome?_cons]
  cases Fields.lookup n properties <;> rfl

theorem firstDefinition_singleton (properties : Fields) (n : Scalar) :
    firstDefinition [properties] n = Fields.lookup n properties := by
  rw [firstDefinition_cons]
  exact Option.or_none

theorem firstDefinition_eq_none_iff :
    firstDefinition declared n = none ↔ ∀ properties ∈ declared, Fields.lookup n properties = none :=
  List.findSome?_eq_none_iff

theorem firstDefinition_congr (h : n.same k = true) (declared : List Fields) :
    firstDefinition declared n = firstDefinition declared k := by
  have hlookup : Fields.lookup n = Fields.lookup k := funext fun fields => Fields.lookup_congr h fields
  rw [firstDefinition, firstDefinition, hlookup]

/-- The first definitions change for the name of a further property only. -/
theorem firstDefinition_snoc_property (before : List Fields) (done : Fields) (k : Scalar)
    (definition : Value) (m : Scalar) :
    firstDefinition (before ++ [done ++ [(k, definition)]]) m =
      (firstDefinition (before ++ [done]) m).or (if k.same m then some definition else none) := by
  rw [firstDefinition_append, firstDefinition_append, firstDefinition_singleton,
    firstDefinition_singleton, Fields.lookup_append, Option.or_assoc, Fields.lookup, Fields.lookup]

theorem firstDefinition_snoc_of_new (hnew : ∀ f ∈ done, f.1.same k = false) :
    firstDefinition (before ++ [done]) k = firstDefinition before k := by
  rw [firstDefinition_append, firstDefinition_singleton, Fields.lookup_eq_none_iff.mpr hnew,
    Option.or_none]

/-- What was seen of a name is its first definition. -/
def Tracks (declared : List Fields) (seen : List Seen) : Prop :=
  ∀ n, (firstDefinition declared n = none ∧ seen.find? (·.name.same n) = none) ∨
    ∃ d s, firstDefinition declared n = some d ∧ seen.find? (·.name.same n) = some s ∧
      Json.write Json.canonical d = .ok s.canonical

theorem tracks_nil : Tracks [] [] := fun _ => Or.inl ⟨rfl, rfl⟩

theorem Tracks.append_nil (h : Tracks declared seen) : Tracks (declared ++ [[]]) seen := by
  intro n
  rw [firstDefinition_append, firstDefinition_singleton, Fields.lookup, Option.or_none]
  exact h n

/-- A name that was not seen is declared for the first time. -/
theorem Tracks.declare (h : Tracks (before ++ [done]) seen)
    (hnone : firstDefinition (before ++ [done]) k = none) {canonical : String}
    (hcanonical : Json.write Json.canonical definition = .ok canonical) (source : String) :
    Tracks (before ++ [done ++ [(k, definition)]]) (seen ++ [⟨k, canonical, source⟩]) := by
  intro m
  rw [firstDefinition_snoc_property, List.find?_append]
  cases hk : k.same m with
  | false =>
    rw [if_neg (by simp), Option.or_none, List.find?_cons_of_neg (by simp [hk]), List.find?_nil,
      Option.or_none]
    exact h m
  | true =>
    rw [firstDefinition_congr hk] at hnone
    refine Or.inr ⟨definition, ⟨k, canonical, source⟩, ?_, ?_, hcanonical⟩
    · rw [hnone, if_pos rfl]
      rfl
    · rcases h m with ⟨-, hm⟩ | ⟨d, s, hm, -⟩
      · rw [hm, Option.none_or, List.find?_cons, hk]
      · rw [hnone] at hm
        cases hm

/-- Declaring a name again changes no first definition. -/
theorem Tracks.again (h : Tracks (before ++ [done]) seen)
    (hd : firstDefinition (before ++ [done]) k = some d) (definition : Value) :
    Tracks (before ++ [done ++ [(k, definition)]]) seen := by
  intro m
  have hm : firstDefinition (before ++ [done ++ [(k, definition)]]) m =
      firstDefinition (before ++ [done]) m := by
    rw [firstDefinition_snoc_property]
    cases hk : k.same m with
    | false => exact Option.or_none
    | true =>
      rw [← firstDefinition_congr hk, hd]
      rfl
  rw [hm]
  exact h m

/-- What was not seen has no definition yet. -/
theorem Tracks.eq_none (h : Tracks declared seen) (hseen : seen.find? (·.name.same n) = none) :
    firstDefinition declared n = none := by
  rcases h n with ⟨hnone, -⟩ | ⟨d, s, -, hs, -⟩
  · exact hnone
  · rw [hseen] at hs
    cases hs

/-- What was seen has a definition, with the canonical text that was kept. -/
theorem Tracks.exists_first (h : Tracks declared seen) {s : Seen}
    (hseen : seen.find? (·.name.same n) = some s) :
    ∃ d, firstDefinition declared n = some d ∧ Json.write Json.canonical d = .ok s.canonical := by
  rcases h n with ⟨-, hnone⟩ | ⟨d, s', hd, hs, hfound⟩
  · rw [hseen] at hnone
    cases hnone
  · rw [hseen] at hs
    cases hs
    exact ⟨d, hd, hfound⟩

theorem sameCanonical_iff {t t' : String} (ht : Json.write Json.canonical d = .ok t)
    (ht' : Json.write Json.canonical d' = .ok t') : SameCanonical d d' ↔ t' = t := by
  constructor
  · rintro ⟨u, hu, hu'⟩
    rw [ht] at hu
    rw [ht'] at hu'
    exact Except.ok.inj (hu'.trans hu.symm)
  · rintro rfl
    exact ⟨_, ht, ht'⟩

/-- A property that has another definition already, and a different one. -/
def Loses (before : List Fields) (properties : Fields) (k : Scalar) : Prop :=
  ∃ d d', firstDefinition before k = some d ∧ (k, d') ∈ properties ∧ ¬ SameCanonical d d'

/-- A single property is lost or nothing is. -/
theorem loses_singleton_iff {m : Scalar} : Loses before [(k, definition)] m ↔
    m = k ∧ ∃ d, firstDefinition before k = some d ∧ ¬ SameCanonical d definition := by
  constructor
  · rintro ⟨d, d', hd, hmem, hdiffers⟩
    cases List.mem_singleton.mp hmem
    exact ⟨rfl, d, hd, hdiffers⟩
  · rintro ⟨rfl, d, hd, hdiffers⟩
    exact ⟨d, definition, hd, List.mem_singleton_self _, hdiffers⟩

/-- What a conflict is reported as. -/
def conflictText (source : String) (name : Scalar) : String :=
  "Property \"" ++ name.display ++ "\" has conflicting definitions in " ++ source ++ " and " ++ source

/-- What scanning some properties of a branch did: `new` are those that are lost. -/
structure Scanned (before : List Fields) (done properties : Fields) (source : String)
    (scan scan' : Scan) (new : List Scalar) : Prop where
  tracks : Tracks (before ++ [done ++ properties]) scan'.seen
  overridden : scan'.overridden = scan.overridden
  written : ∀ f ∈ properties, ∃ t, Json.write Json.canonical f.2 = .ok t
  losing : ∀ k, k ∈ new ↔ Loses before properties k
  sources : (∀ s ∈ scan.seen, s.source = source) → ∀ s ∈ scan'.seen, s.source = source
  conflicts : (∀ s ∈ scan.seen, s.source = source) →
    scan'.conflicts = scan.conflicts ++ new.map (conflictText source)

/-- **Scanning a property that the branch has not had yet**: it is seen for the first time, repeats
its first definition, or is lost. -/
theorem scanProperty_spec (htracks : Tracks (before ++ [done]) scan.seen)
    (hnew : ∀ f ∈ done, f.1.same k = false)
    (h : scanProperty source scan losing k definition = .ok (scan', losing')) :
    ∃ new, losing' = losing ++ new ∧ Scanned before done [(k, definition)] source scan scan' new := by
  obtain ⟨canonical, hcanonical, h⟩ := Outcome.bind_eq_ok.mp h
  have hfirst : firstDefinition (before ++ [done]) k = firstDefinition before k :=
    firstDefinition_snoc_of_new hnew
  have hwritten : ∀ f ∈ [(k, definition)], ∃ t, Json.write Json.canonical f.2 = .ok t :=
    List.forall_mem_singleton.mpr ⟨canonical, hcanonical⟩
  dsimp only at h
  split at h
  · rename_i hunseen
    cases h
    have hnone := htracks.eq_none hunseen
    refine ⟨[], (List.append_nil _).symm, htracks.declare hnone hcanonical source, rfl, hwritten,
      fun m => ?_, fun hs s hmem => ?_, fun _ => (List.append_nil _).symm⟩
    · rw [loses_singleton_iff, ← hfirst, hnone]
      exact iff_of_false List.not_mem_nil nofun
    · rcases List.mem_append.mp hmem with hmem | hmem
      · exact hs s hmem
      · rw [List.mem_singleton.mp hmem]
  · rename_i first hseen
    obtain ⟨d, hd, hfound⟩ := htracks.exists_first hseen
    have htracks' := htracks.again hd definition
    have hsame := sameCanonical_iff hfound hcanonical
    rw [hfirst] at hd
    split at h
    · rename_i heq
      cases h
      refine ⟨[], (List.append_nil _).symm, htracks', rfl, hwritten, fun m => ?_, fun hs => hs,
        fun _ => (List.append_nil _).symm⟩
      rw [loses_singleton_iff]
      refine iff_of_false List.not_mem_nil ?_
      rintro ⟨-, d', hd', hdiffers⟩
      rw [hd] at hd'
      cases hd'
      exact hdiffers (hsame.mpr (by simpa using heq))
    · rename_i hne
      cases h
      refine ⟨[k], rfl, htracks', rfl, hwritten, fun m => ?_, fun hs => hs, fun hs => ?_⟩
      · rw [loses_singleton_iff, List.mem_singleton]
        exact ⟨fun hm => ⟨hm, d, hd, fun hdiffers => hne (by simpa using hsame.mp hdiffers)⟩, And.left⟩
      · rw [hs first (List.mem_of_find?_eq_some hseen)]
        rfl

theorem Scanned.trans {new new' : List Scalar} {properties properties' : Fields}
    {scan scan' scan'' : Scan} (h : Scanned before done properties source scan scan' new)
    (h' : Scanned before (done ++ properties) properties' source scan' scan'' new') :
    Scanned before done (properties ++ properties') source scan scan'' (new ++ new') where
  tracks := by
    rw [← List.append_assoc]
    exact h'.tracks
  overridden := h'.overridden.trans h.overridden
  written f hf := (List.mem_append.mp hf).elim (h.written f) (h'.written f)
  losing k := by
    rw [List.mem_append, h.losing, h'.losing]
    constructor
    · rintro (⟨d, d', hd, hmem, hdiffers⟩ | ⟨d, d', hd, hmem, hdiffers⟩)
      · exact ⟨d, d', hd, List.mem_append_left _ hmem, hdiffers⟩
      · exact ⟨d, d', hd, List.mem_append_right _ hmem, hdiffers⟩
    · rintro ⟨d, d', hd, hmem, hdiffers⟩
      exact (List.mem_append.mp hmem).imp (⟨d, d', hd, ·, hdiffers⟩) (⟨d, d', hd, ·, hdiffers⟩)
  sources hs := h'.sources (h.sources hs)
  conflicts hs := by
    rw [h'.conflicts (h.sources hs), h.conflicts hs, List.map_append, List.append_assoc]

theorem scanProperties_spec : ∀ {properties done : Fields} {scan scan' : Scan}
    {losing losing' : List Scalar}, Tracks (before ++ [done]) scan.seen →
    Apart (done ++ properties) →
    properties.foldlM (fun (acc : Scan × List Scalar) f =>
      scanProperty source acc.1 acc.2 f.1 f.2) (scan, losing) = .ok (scan', losing') →
    ∃ new, losing' = losing ++ new ∧ Scanned before done properties source scan scan' new
  | [], done, scan, scan', losing, losing', htracks, _, h => by
    cases h
    refine ⟨[], (List.append_nil _).symm, by rwa [List.append_nil], rfl, nofun, fun k => ?_,
      fun hs => hs, fun _ => (List.append_nil _).symm⟩
    exact iff_of_false List.not_mem_nil fun ⟨_, _, _, hmem, _⟩ => List.not_mem_nil hmem
  | (k, definition) :: properties, done, scan, scan', losing, losing', htracks, hapart, h => by
    rw [List.foldlM_cons] at h
    obtain ⟨⟨scan₁, losing₁⟩, hfirst, hrest⟩ := Outcome.bind_eq_ok.mp h
    have hsplit : done ++ (k, definition) :: properties =
        (done ++ [(k, definition)]) ++ properties := by simp
    rw [hsplit] at hapart
    have hnew := (apart_append_singleton.mp (List.pairwise_append.mp hapart).1).2
    obtain ⟨new, rfl, hscanned⟩ := scanProperty_spec htracks hnew hfirst
    obtain ⟨new', rfl, hscanned'⟩ := scanProperties_spec hscanned.tracks hapart hrest
    exact ⟨new ++ new', by rw [List.append_assoc], hscanned.trans hscanned'⟩

/-! ## Scanning branches -/

/-- The branch before which `before` was declared loses the names in `losing`, and so on. -/
inductive LosesInTurn : List Fields → List Fields → List (List Scalar) → Prop
  | nil (before : List Fields) : LosesInTurn before [] []
  | cons {before declared : List Fields} {properties : Fields} {losing : List Scalar}
      {losings : List (List Scalar)} (apart : Apart properties)
      (written : ∀ f ∈ properties, ∃ t, Json.write Json.canonical f.2 = .ok t)
      (losing_iff : ∀ k, k ∈ losing ↔ Loses before properties k)
      (later : LosesInTurn (before ++ [properties]) declared losings) :
      LosesInTurn before (properties :: declared) (losing :: losings)

/-- What scanning a branch did. -/
theorem scanBranch_spec {schemas : Fields} {branch : Value} (htracks : Tracks before scan.seen)
    (h : scanBranch schemas scan branch = .ok scan') :
    ∃ source properties new, branchSource branch = .ok source ∧
      propertiesOf schemas branch = .ok properties ∧
      Tracks (before ++ [properties]) scan'.seen ∧ Apart properties ∧
      (∀ f ∈ properties, ∃ t, Json.write Json.canonical f.2 = .ok t) ∧
      (∀ k, k ∈ new ↔ Loses before properties k) ∧
      scan'.overridden = scan.overridden ++ [new] ∧
      ((∀ s ∈ scan.seen, s.source = source) →
        (∀ s ∈ scan'.seen, s.source = source) ∧
          scan'.conflicts = scan.conflicts ++ new.map (conflictText source)) := by
  obtain ⟨source, hsource, h⟩ := Outcome.bind_eq_ok.mp h
  obtain ⟨properties, hproperties, h⟩ := Outcome.bind_eq_ok.mp h
  obtain ⟨⟨scan₁, losing⟩, hscan, h⟩ := Outcome.bind_eq_ok.mp h
  cases h
  have hapart : Apart properties := apart_branchProperties hproperties
  obtain ⟨new, hnew, hscanned⟩ := scanProperties_spec htracks.append_nil hapart hscan
  rw [List.nil_append] at hnew
  subst hnew
  refine ⟨source, properties, losing, hsource, hproperties, hscanned.tracks, hapart,
    hscanned.written, hscanned.losing, ?_, fun hs => ⟨hscanned.sources hs, hscanned.conflicts hs⟩⟩
  rw [hscanned.overridden]

/-- What scanning some branches did: each loses its properties in turn. -/
theorem foldlM_scanBranch {schemas : Fields} : ∀ {branches : List Value} {before : List Fields}
    {scan scan' : Scan}, Tracks before scan.seen →
    branches.foldlM (scanBranch schemas) scan = .ok scan' →
    ∃ declared losings,
      List.Forall₂ (fun b ps => propertiesOf schemas b = .ok ps) branches declared ∧
      LosesInTurn before declared losings ∧ scan'.overridden = scan.overridden ++ losings ∧
      ∀ source, (∀ s ∈ scan.seen, s.source = source) →
        (∀ b ∈ branches, branchSource b = .ok source) →
        scan'.conflicts = scan.conflicts ++ losings.flatten.map (conflictText source)
  | [], before, scan, scan', _, h => by
    cases h
    exact ⟨[], [], .nil, .nil before, (List.append_nil _).symm, fun _ _ _ => (List.append_nil _).symm⟩
  | branch :: branches, before, scan, scan', htracks, h => by
    rw [List.foldlM_cons] at h
    obtain ⟨next, hfirst, hrest⟩ := Outcome.bind_eq_ok.mp h
    obtain ⟨source, properties, new, hsource, hproperties, htracks', hapart, hwritten, hlosing,
      hoverridden, hconflicts⟩ := scanBranch_spec htracks hfirst
    obtain ⟨declared, losings, hdeclared, hturn, hoverridden', hconflicts'⟩ :=
      foldlM_scanBranch htracks' hrest
    refine ⟨properties :: declared, new :: losings, .cons hproperties hdeclared,
      .cons hapart hwritten hlosing hturn, ?_, fun source' hs hbranches => ?_⟩
    · rw [hoverridden', hoverridden, List.append_assoc]
      rfl
    · obtain ⟨hhead, htail⟩ := List.forall_mem_cons.mp hbranches
      obtain rfl : source' = source := Except.ok.inj (hhead.symm.trans hsource)
      obtain ⟨hseen, hfound⟩ := hconflicts hs
      rw [hconflicts' source' hseen htail, hfound, List.flatten_cons, List.map_append,
        List.append_assoc]

/-- **Scanning finds, branch by branch, the properties that an earlier branch defines otherwise.** -/
theorem scanBranches_spec {schemas : Fields} {branches : List Value}
    (h : scanBranches schemas branches = .ok scan) :
    ∃ declared, List.Forall₂ (fun b ps => propertiesOf schemas b = .ok ps) branches declared ∧
      LosesInTurn [] declared scan.overridden ∧
      ∀ source, (∀ b ∈ branches, branchSource b = .ok source) →
        scan.conflicts = scan.overridden.flatten.map (conflictText source) := by
  obtain ⟨declared, losings, hdeclared, hturn, hoverridden, hconflicts⟩ :=
    foldlM_scanBranch tracks_nil h
  rw [List.nil_append] at hoverridden
  subst hoverridden
  exact ⟨declared, hdeclared, hturn, fun source => hconflicts source nofun⟩

/-! ## Definitions that differ -/

/-- A name that some properties define otherwise than it was defined before. -/
def Differs (before : List Fields) (properties : Fields) (n : Scalar) : Prop :=
  ∃ d d', firstDefinition before n = some d ∧ Fields.lookup n properties = some d' ∧
    ¬ SameCanonical d d'

theorem loses_iff_differs (hapart : Apart properties) (hmem : (k, definition) ∈ properties)
    (hk : k.same n = true) : Loses before properties k ↔ Differs before properties n := by
  have hlookup : Fields.lookup n properties = some definition := Fields.lookup_of_mem hapart hmem hk
  have hself : Fields.lookup k properties = some definition := by
    rw [Fields.lookup_congr hk, hlookup]
  unfold Loses Differs
  rw [firstDefinition_congr hk, hlookup]
  constructor
  · rintro ⟨d, d', hd, hmem', hdiffers⟩
    refine ⟨d, definition, hd, rfl, ?_⟩
    have hsame : k.same k = true := Scalar.same_trans hk (Scalar.same_symm hk)
    rw [Fields.lookup_of_mem hapart hmem' hsame] at hself
    cases hself
    exact hdiffers
  · rintro ⟨d, d', hd, hd', hdiffers⟩
    cases hd'
    exact ⟨d, definition, hd, hmem, hdiffers⟩

/-- **A name is lost, in whichever spelling, if it is defined otherwise.** -/
theorem any_losing_iff (hapart : Apart properties) (hlosing : ∀ k, k ∈ losing ↔ Loses before properties k) :
    losing.any (·.same n) = true ↔ Differs before properties n := by
  rw [List.any_eq_true]
  constructor
  · rintro ⟨k, hk, hsame⟩
    obtain ⟨d, d', hd, hmem, hdiffers⟩ := (hlosing k).mp hk
    exact (loses_iff_differs hapart hmem hsame).mp ⟨d, d', hd, hmem, hdiffers⟩
  · rintro ⟨d, d', hd, hd', hdiffers⟩
    obtain ⟨k, hmem, hsame⟩ := Fields.mem_of_lookup hd'
    exact ⟨k, (hlosing k).mpr ((loses_iff_differs hapart hmem hsame).mpr ⟨d, d', hd, hd', hdiffers⟩),
      hsame⟩

/-- **The names that are lost are those with two different definitions.** -/
theorem any_losings_iff {losings : List (List Scalar)} (h : LosesInTurn before declared losings) :
    losings.flatten.any (·.same n) = true ↔
      ∃ d, firstDefinition (before ++ declared) n = some d ∧ ∃ properties ∈ declared, ∃ d',
        Fields.lookup n properties = some d' ∧ ¬ SameCanonical d d' := by
  induction h with
  | nil => simp
  | @cons before declared properties losing losings apart written losing_iff _ ih =>
    rw [List.flatten_cons, List.any_append, Bool.or_eq_true, ih, any_losing_iff apart losing_iff]
    have hsplit : before ++ properties :: declared = (before ++ [properties]) ++ declared := by simp
    rw [hsplit]
    constructor
    · rintro (⟨d, d', hd, hd', hdiffers⟩ | ⟨d, hd, later, hlater, hd'⟩)
      · refine ⟨d, ?_, properties, List.mem_cons_self, d', hd', hdiffers⟩
        rw [firstDefinition_append, firstDefinition_append, hd]
        rfl
      · exact ⟨d, hd, later, List.mem_cons_of_mem _ hlater, hd'⟩
    · rintro ⟨d, hd, found, hfound, d', hd', hdiffers⟩
      rcases List.mem_cons.mp hfound with rfl | hfound
      · refine Or.inl ⟨d, d', ?_, hd', hdiffers⟩
        rw [firstDefinition_append, firstDefinition_append, firstDefinition_singleton, hd'] at hd
        cases hbefore : firstDefinition before n with
        | some first =>
          rw [hbefore] at hd
          exact hd
        | none =>
          -- then this definition is the first one itself
          rw [hbefore] at hd
          cases hd
          obtain ⟨k, hk, -⟩ := Fields.mem_of_lookup hd'
          obtain ⟨t, ht⟩ := written _ hk
          exact absurd ⟨t, ht, ht⟩ hdiffers
      · exact Or.inr ⟨d, hd, found, hfound, d', hd', hdiffers⟩

end SchemaForge.Compile
