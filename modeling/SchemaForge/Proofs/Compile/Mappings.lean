import Mathlib.Data.List.Basic
import Mathlib.Data.List.Nodup
import Mathlib.Data.List.Perm.Basic
import Mathlib.Data.List.TakeWhile
import SchemaForge.Proofs.Compile.BranchWalk
import SchemaForge.Proofs.Document.Distinct
import SchemaForge.Proofs.Duplicates

/-!
# Branches in the order of a mapping

A target of a discriminator mapping means the first branch whose reference ends in it, or, if there is
none, a reference of its own. So the order of a mapping is known in full (`orderByMapping_eq`): what
the targets mean, each once and in their order, and then the branches that no target means, in theirs.

Nothing gets lost by that. But a short target, without a slash, may be the end of a longer name, and
then it means the branch of the other schema: such a target is `Mistaken`.
-/

namespace SchemaForge

open Text
open scoped List

/-! ## Same documents -/

/-- A document that is the same as an object has the same texts under its names. -/
theorem Fields.get?_of_same {fields fields' : Fields} {k t : String}
    (h : (Value.object fields).same (.object fields') = true) (ht : fields.get? k = some (.text t)) :
    fields'.get? k = some (.text t) := by
  have hwithin : ∀ {fields : Fields}, Fields.within fields fields' = true →
      ∀ f ∈ fields, ∃ w, lookup f.1 fields' = some w ∧ f.2.same w = true := by
    intro fields hwithin
    induction fields with
    | nil => nofun
    | cons f fields ih =>
      obtain ⟨name, v⟩ := f
      rw [Fields.within, Bool.and_eq_true] at hwithin
      refine List.forall_mem_cons.mpr ⟨?_, ih hwithin.2⟩
      cases hw : lookup name fields' with
      | none =>
        rw [hw] at hwithin
        cases hwithin.1
      | some w =>
        rw [hw] at hwithin
        exact ⟨w, rfl, hwithin.1⟩
  rw [Value.same, Bool.and_eq_true] at h
  obtain ⟨w, hw, hsame⟩ := hwithin h.2 _ (mem_of_get? ht)
  rw [get?_eq_lookup, hw]
  cases w with
  | scalar s =>
    have hs : s = .text t := by
      have := Scalar.same_symm hsame
      rwa [Scalar.same_text, beq_iff_eq] at this
    rw [hs]
  | list items => cases hsame
  | object fields => cases hsame

namespace Compile

/-! ## What targets mean -/

/-- Whether a branch is a reference that ends in a target. -/
def endsIn (target : String) (branch : Value) : Bool :=
  match branch with
  | .object fields =>
    match Fields.value fields "$ref" with
    | .text ref => endsWith target.toList ref.toList
    | _ => false
  | _ => false

/-- A branch that is a reference and nothing else. -/
def referenceTo (target : String) : Value := .object [(.text "$ref", .text target)]

/-- The branches with their positions. -/
def placed (branches : List Fields) : Ordered :=
  branches.zipIdx.map fun b => (some b.2, .object b.1)

/-- What a target of a mapping means: the first branch that ends in it, else a reference to it. -/
def meant (branches : List Fields) (target : String) : Option Nat × Value :=
  ((placed branches).find? fun o => endsIn target o.2).getD (none, referenceTo target)

/-- What the targets of a mapping mean, each once. -/
def meanings (branches : List Fields) (targets : List String) : Ordered :=
  (targets.map (meant branches)).eraseDups

variable {branches : List Fields} {target target' : String} {targets : List String}
  {branch : Value} {o : Option Nat × Value}

theorem endsIn_iff : endsIn target branch = true ↔
    ∃ ref, RefersBy branch ref ∧ target.toList <:+ ref.toList := by
  unfold endsIn
  split
  · rename_i fields
    split
    · rename_i ref hvalue
      have hget : Fields.get? fields "$ref" = some (.text ref) := by
        have hheld := Fields.get?_of_has (Fields.has_of_value_ne (by rw [hvalue]; nofun))
        rwa [hvalue] at hheld
      rw [endsWith_iff_isSuffix]
      refine ⟨fun hends => ⟨ref, ⟨fields, rfl, hget⟩, hends⟩, ?_⟩
      rintro ⟨ref', href', hends⟩
      rwa [RefersBy.unique ⟨fields, rfl, hget⟩ href']
    · rename_i hnone
      refine iff_of_false nofun ?_
      rintro ⟨ref, ⟨fields', hfields, hget⟩, -⟩
      cases hfields
      exact hnone ref (Fields.value_of_get? hget)
  · rename_i hnone
    refine iff_of_false nofun ?_
    rintro ⟨ref, ⟨fields, hfields, -⟩, -⟩
    exact hnone fields hfields

theorem refersBy_referenceTo {ref : String} : RefersBy (referenceTo target) ref ↔ ref = target := by
  refine ⟨fun h => h.unique ⟨_, rfl, rfl⟩, ?_⟩
  rintro rfl
  exact ⟨_, rfl, rfl⟩

theorem endsIn_referenceTo : endsIn target (referenceTo target) = true :=
  endsIn_iff.mpr ⟨target, refersBy_referenceTo.mpr rfl, List.suffix_refl _⟩

/-- A position tells the branch. -/
theorem eq_of_mem_placed {o' : Option Nat × Value} (h : o ∈ placed branches)
    (h' : o' ∈ placed branches) (heq : o.1 = o'.1) : o = o' := by
  obtain ⟨b, hb, rfl⟩ := List.mem_map.mp h
  obtain ⟨b', hb', rfl⟩ := List.mem_map.mp h'
  have hposition : b.2 = b'.2 := Option.some.inj heq
  rw [List.mem_zipIdx_iff_getElem?] at hb hb'
  rw [hposition, hb', Option.some.injEq] at hb
  rw [hposition, hb]

theorem values_placed (branches : List Fields) :
    (placed branches).map (·.2) = branches.map .object := by
  rw [placed, List.map_map]
  conv_rhs => rw [← List.zipIdx_map_fst 0 branches, List.map_map]
  rfl

theorem nodup_placed (branches : List Fields) : (placed branches).Nodup := by
  refine List.Nodup.of_map Prod.fst ?_
  have hpositions : (placed branches).map Prod.fst = (branches.zipIdx.map Prod.snd).map some := by
    rw [placed, List.map_map, List.map_map]
    rfl
  rw [hpositions, List.zipIdx_map_snd]
  exact List.Nodup.map (Option.some_injective _) List.nodup_range'

/-- A target means the first branch that ends in it, or a reference if there is no such branch. -/
theorem meant_cases (branches : List Fields) (target : String) :
    (placed branches).find? (fun o => endsIn target o.2) = some (meant branches target) ∨
      meant branches target = (none, referenceTo target) ∧
        ∀ o ∈ placed branches, endsIn target o.2 = false := by
  unfold meant
  cases hfound : (placed branches).find? fun o => endsIn target o.2 with
  | some o => exact Or.inl rfl
  | none => exact Or.inr ⟨rfl, fun o ho => by simpa using List.find?_eq_none.mp hfound o ho⟩

theorem endsIn_meant (branches : List Fields) (target : String) :
    endsIn target (meant branches target).2 = true := by
  obtain hfound | ⟨hnone, -⟩ := meant_cases branches target
  · have hends := List.find?_some hfound
    exact hends
  · rw [hnone]
    exact endsIn_referenceTo

theorem mem_placed_meant (h : (meant branches target).1.isSome) :
    meant branches target ∈ placed branches := by
  obtain hfound | ⟨hnone, -⟩ := meant_cases branches target
  · exact List.mem_of_find?_eq_some hfound
  · rw [hnone] at h
    cases h

/-! ## Each once -/

theorem eq_of_find? {α : Type} {f g : α → Bool} {x y : α} : ∀ {l : List α},
    l.find? f = some x → l.find? g = some y → f y = true → g x = true → x = y
  | [], h, _, _, _ => nomatch h
  | a :: l, hx, hy, hfy, hgx => by
    rw [List.find?_cons] at hx hy
    cases hf : f a <;> cases hg : g a <;> simp only [hf, hg] at hx hy
    · exact eq_of_find? hx hy hfy hgx
    · cases hy
      rw [hf] at hfy
      cases hfy
    · cases hx
      rw [hg] at hgx
      cases hgx
    · cases hx
      cases hy
      rfl

theorem eq_of_position (hsome : (meant branches target).1.isSome)
    (hposition : (meant branches target).1 = (meant branches target').1) :
    meant branches target = meant branches target' :=
  eq_of_mem_placed (mem_placed_meant hsome) (mem_placed_meant (hposition ▸ hsome)) hposition

/-- What is the same as a reference is a reference with the same text. -/
theorem RefersBy.of_same {branch' : Value} {ref : String} (href : RefersBy branch ref)
    (h : branch.same branch' = true) : RefersBy branch' ref := by
  obtain ⟨fields, rfl, hget⟩ := href
  cases branch' with
  | object fields' => exact ⟨fields', rfl, Fields.get?_of_same h hget⟩
  | scalar s => cases h
  | list items => cases h

theorem eq_of_same (hsame : (meant branches target).2.same (meant branches target').2 = true) :
    meant branches target = meant branches target' := by
  obtain ⟨ref, href, hends⟩ := endsIn_iff.mp (endsIn_meant branches target)
  obtain ⟨ref', href', hends'⟩ := endsIn_iff.mp (endsIn_meant branches target')
  obtain rfl := (href.of_same hsame).unique href'
  -- both texts are one, so either end is the end of either meaning
  obtain hfound | ⟨hnone, hends₀⟩ := meant_cases branches target <;>
    obtain hfound' | ⟨hnone', hends₀'⟩ := meant_cases branches target'
  · exact eq_of_find? hfound hfound' (endsIn_iff.mpr ⟨ref, href', hends⟩)
      (endsIn_iff.mpr ⟨ref, href, hends'⟩)
  · have := hends₀' _ (List.mem_of_find?_eq_some hfound)
    rw [endsIn_iff.mpr ⟨ref, href, hends'⟩] at this
    cases this
  · have := hends₀ _ (List.mem_of_find?_eq_some hfound')
    rw [endsIn_iff.mpr ⟨ref, href', hends⟩] at this
    cases this
  · rw [hnone] at href
    rw [hnone'] at href'
    rw [hnone, hnone', ← refersBy_referenceTo.mp href, ← refersBy_referenceTo.mp href']

theorem same_referenceTo (target : String) :
    (referenceTo target).same (referenceTo target) = true := by
  have htext : (Scalar.text target).same (.text target) = true := by
    rw [Scalar.same_text, beq_self_eq_true]
  simp [referenceTo, Value.same, Fields.within, Fields.lookup, htext, Scalar.same_text]

/-- **The test for what is there already tells whether two targets mean the same.** -/
theorem sameMeaning_iff :
    ((meant branches target).1.isSome && (meant branches target).1 == (meant branches target').1 ||
      (meant branches target).2.same (meant branches target').2) = true ↔
    meant branches target = meant branches target' := by
  rw [Bool.or_eq_true, Bool.and_eq_true, beq_iff_eq]
  constructor
  -- equal branches at two positions cannot both be the first that end in a target
  · rintro (⟨hsome, hposition⟩ | hsame)
    · exact eq_of_position hsome hposition
    · exact eq_of_same hsame
  · intro heq
    rw [← heq]
    obtain hfound | ⟨hnone, -⟩ := meant_cases branches target
    · obtain ⟨b, -, hb⟩ := List.mem_map.mp (List.mem_of_find?_eq_some hfound)
      exact Or.inl ⟨by rw [← hb]; rfl, rfl⟩
    · exact Or.inr (by rw [hnone]; exact same_referenceTo target)

/-! ## The order -/

theorem refMatches_text (ref target : String) :
    refMatches ref (.text target) = .ok (endsWith target.toList ref.toList) := by
  unfold refMatches
  dsimp only
  by_cases heq : ref = target
  · have hself : endsWith ref.toList ref.toList = true :=
      endsWith_iff_isSuffix.mpr (List.suffix_refl _)
    rw [← heq, hself, Bool.or_true]
  · rw [beq_false_of_ne heq, Bool.false_or]

theorem matchingBranch_eq (target : String) : ∀ (branches : List Fields) (position : Nat),
    matchingBranch (.text target) position (branches.map .object) =
      .ok (((branches.zipIdx position).find? fun b => endsIn target (.object b.1)).map
        fun b => (b.2, .object b.1))
  | [], _ => rfl
  | fields :: branches, position => by
    have hstep : matchingBranch (.text target) position ((fields :: branches).map .object) =
        bif endsIn target (.object fields) then .ok (some (position, .object fields))
        else matchingBranch (.text target) (position + 1) (branches.map .object) := by
      rw [List.map_cons, matchingBranch]
      show (match fields.value "$ref" with | .text ref => _ | _ => _) = _
      unfold endsIn
      dsimp only
      generalize fields.value "$ref" = value
      cases value with
      | scalar s =>
        cases s with
        | text ref =>
          dsimp only
          rw [refMatches_text]
          cases endsWith target.toList ref.toList <;> rfl
        | _ => rfl
      | list items => rfl
      | object fields => rfl
    rw [hstep, List.zipIdx_cons, List.find?_cons]
    cases endsIn target (.object fields)
    · exact matchingBranch_eq target branches (position + 1)
    · rfl

theorem orderTarget_eq (ordered : Ordered) :
    orderTarget (branches.map .object) ordered (.text target) =
      .ok (if ordered.any fun o => o.1.isSome && o.1 == (meant branches target).1 ||
          o.2.same (meant branches target).2 then ordered
        else ordered ++ [meant branches target]) := by
  have hmeant : meant branches target =
      ((branches.zipIdx.find? fun b => endsIn target (.object b.1)).map
        fun b => (some b.2, .object b.1)).getD (none, referenceTo target) := by
    rw [meant, placed, List.find?_map]
    rfl
  unfold orderTarget
  rw [matchingBranch_eq, hmeant]
  cases branches.zipIdx.find? fun b => endsIn target (.object b.1) with
  | some b => exact (apply_ite Except.ok _ _ _).symm
  | none => exact (apply_ite Except.ok _ _ _).symm

theorem leftOver_eq (ordered : Ordered) : ∀ (branches : List Value) (position : Nat),
    leftOver ordered position branches =
      ((branches.zipIdx position).filter fun b => !ordered.any fun o => o.1 == some b.2).map (·.1)
  | [], _ => rfl
  | branch :: branches, position => by
    rw [leftOver, List.zipIdx_cons, List.filter_cons, leftOver_eq ordered branches]
    cases ordered.any fun o => o.1 == some position <;> rfl

/-- One more target: what it means is put behind the others, unless it is there. -/
theorem orderTarget_meanings (done : List String) :
    orderTarget (branches.map .object) (meanings branches done) (.text target) =
      .ok (meanings branches (done ++ [target])) := by
  have hthere : ((meanings branches done).any fun o =>
      o.1.isSome && o.1 == (meant branches target).1 || o.2.same (meant branches target).2) = true ↔
        meant branches target ∈ done.map (meant branches) := by
    rw [List.any_eq_true]
    constructor
    · rintro ⟨o, ho, hsame⟩
      obtain ⟨t, ht, rfl⟩ := List.mem_map.mp (List.mem_eraseDups.mp ho)
      rw [← sameMeaning_iff.mp hsame]
      exact List.mem_map_of_mem ht
    · exact fun hmem => ⟨_, List.mem_eraseDups.mpr hmem, sameMeaning_iff.mpr rfl⟩
  rw [orderTarget_eq]
  unfold meanings
  rw [List.map_append, List.map_singleton, eraseDups_concat]
  exact congrArg Except.ok (if_congr hthere rfl rfl)

theorem foldlM_meanings : ∀ (targets done : List String),
    (targets.map Value.text).foldlM (orderTarget (branches.map .object)) (meanings branches done) =
      .ok (meanings branches (done ++ targets))
  | [], done => by
    rw [List.append_nil]
    rfl
  | target :: targets, done => by
    rw [List.map_cons, List.foldlM_cons, orderTarget_meanings]
    show (targets.map Value.text).foldlM _ _ = _
    rw [foldlM_meanings targets, List.append_assoc, List.singleton_append]

theorem mem_placed_of_mem_meanings (h : o ∈ meanings branches targets) (hsome : o.1.isSome) :
    o ∈ placed branches := by
  obtain ⟨t, -, rfl⟩ := List.mem_map.mp (List.mem_eraseDups.mp h)
  exact mem_placed_meant hsome

theorem leftOver_meanings : leftOver (meanings branches targets) 0 (branches.map .object) =
    ((placed branches).filter fun o => !(meanings branches targets).contains o).map (·.2) := by
  rw [leftOver_eq, List.zipIdx_map, placed, List.filter_map, List.filter_map, List.map_map,
    List.map_map]
  refine congrArg (List.map _) (List.filter_congr fun b hb => congrArg Bool.not ?_)
  have hb : (some b.2, Value.object b.1) ∈ placed branches := List.mem_map_of_mem hb
  rw [Bool.eq_iff_iff, List.any_eq_true, List.contains_iff_mem]
  constructor
  · rintro ⟨o, ho, hposition⟩
    have hposition : o.1 = some b.2 := beq_iff_eq.mp hposition
    have hplaced := mem_placed_of_mem_meanings ho (by rw [hposition]; rfl)
    rwa [eq_of_mem_placed hplaced hb hposition] at ho
  · exact fun hmem => ⟨_, hmem, beq_self_eq_true _⟩

/-- The branches that are in the order of a mapping: first what the targets mean, then the others. -/
def reordered (branches : List Fields) (targets : List String) : Ordered :=
  meanings branches targets ++
    (placed branches).filter fun o => !(meanings branches targets).contains o

/-- **What the targets mean comes first, then the other branches.** -/
theorem orderByMapping_eq (mapping : List (Scalar × String)) (branches : List Fields) :
    orderByMapping (.object (mapping.map fun f => (f.1, .text f.2))) (branches.map .object) =
      .ok ((reordered branches (mapping.map (·.2))).map (·.2)) := by
  have htargets : (mapping.map fun f => (f.1, Value.text f.2)).map (·.2) =
      (mapping.map (·.2)).map Value.text := by
    rw [List.map_map, List.map_map]
    rfl
  have hfold : ((mapping.map (·.2)).map Value.text).foldlM (orderTarget (branches.map .object))
      (meanings branches []) = .ok (meanings branches ([] ++ mapping.map (·.2))) :=
    foldlM_meanings _ []
  unfold orderByMapping
  show (((mapping.map fun f => (f.1, Value.text f.2)).map (·.2)).foldlM
    (orderTarget (branches.map .object)) (meanings branches []) >>= fun ordered =>
      Except.ok (ordered.map (·.2) ++ leftOver ordered 0 (branches.map .object))) = _
  rw [htargets, hfold, List.nil_append]
  show Except.ok _ = _
  rw [leftOver_meanings, reordered, List.map_append]

/-! ## Nothing is lost -/

/-- **The branches are all there**, and a reference for every target that means none of them. -/
theorem reordered_perm (branches : List Fields) (targets : List String) :
    reordered branches targets ~
      placed branches ++ (meanings branches targets).filter (·.1.isNone) := by
  have hbranches : (meanings branches targets).filter (!·.1.isNone) ~
      (placed branches).filter fun o => (meanings branches targets).contains o := by
    refine (List.perm_ext_iff_of_nodup ((nodup_eraseDups _).filter _)
      ((nodup_placed branches).filter _)).mpr fun o => ?_
    rw [List.mem_filter, List.mem_filter, List.contains_iff_mem, and_comm]
    refine and_congr_left fun hnamed => ?_
    constructor
    · exact fun hsome => mem_placed_of_mem_meanings hnamed (by simpa using hsome)
    · intro hplaced
      obtain ⟨b, -, rfl⟩ := List.mem_map.mp hplaced
      rfl
  calc reordered branches targets
      ~ ((meanings branches targets).filter (·.1.isNone) ++
          (meanings branches targets).filter (!·.1.isNone)) ++
        (placed branches).filter fun o => !(meanings branches targets).contains o :=
        (List.filter_append_perm _ _).symm.append_right _
    _ ~ (meanings branches targets).filter (·.1.isNone) ++
        ((placed branches).filter (fun o => (meanings branches targets).contains o) ++
          (placed branches).filter fun o => !(meanings branches targets).contains o) := by
        rw [List.append_assoc]
        exact (hbranches.append_right _).append_left _
    _ ~ (meanings branches targets).filter (·.1.isNone) ++ placed branches :=
        (List.filter_append_perm _ _).append_left _
    _ ~ placed branches ++ (meanings branches targets).filter (·.1.isNone) := List.perm_append_comm

/-! ## Every target is covered -/

/-- A branch is a reference to the schema of the given name. -/
def PointsTo (branch : Value) (name : String) : Prop :=
  ∃ ref, RefersBy branch ref ∧ Naming.targetName ref = name

/-- The targets with some name are all taken for branches that have other names. -/
structure Mistaken (branches : List Fields) (targets : List String) (name : String) : Prop where
  unnamed : ∀ fields ∈ branches, ¬ PointsTo (.object fields) name
  taken : ∀ target ∈ targets, Naming.targetName target = name →
    ∃ fields ∈ branches, endsIn target (.object fields) = true

theorem mem_values_placed : branch ∈ (placed branches).map (·.2) ↔
    ∃ fields ∈ branches, .object fields = branch := by
  rw [values_placed, List.mem_map]

theorem mem_meanings_of_isNone : o ∈ (meanings branches targets).filter (·.1.isNone) ↔
    ∃ target ∈ targets, o = (none, referenceTo target) ∧
      ∀ fields ∈ branches, endsIn target (.object fields) = false := by
  rw [List.mem_filter, meanings, List.mem_eraseDups, List.mem_map]
  constructor
  · rintro ⟨⟨target, htarget, rfl⟩, hisNone⟩
    obtain hfound | ⟨hnone, hends⟩ := meant_cases branches target
    · obtain ⟨b, -, hb⟩ := List.mem_map.mp (List.mem_of_find?_eq_some hfound)
      rw [← hb] at hisNone
      cases hisNone
    · refine ⟨target, htarget, hnone, fun fields hfields => ?_⟩
      obtain ⟨o, ho, hvalue⟩ := List.mem_map.mp (mem_values_placed.mpr ⟨fields, hfields, rfl⟩)
      rw [← hvalue]
      exact hends o ho
  · rintro ⟨target, htarget, rfl, hends⟩
    refine ⟨⟨target, htarget, ?_⟩, rfl⟩
    obtain hfound | ⟨hnone, -⟩ := meant_cases branches target
    · have hmeant := endsIn_meant branches target
      obtain ⟨fields, hfields, hvalue⟩ := mem_values_placed.mp
        (List.mem_map_of_mem (f := (·.2)) (List.mem_of_find?_eq_some hfound))
      rw [← hvalue, hends fields hfields] at hmeant
      cases hmeant
    · exact hnone

/-- A name is covered unless the targets that have it are mistaken for other branches. -/
theorem covered_iff {name : String} :
    (∃ branch ∈ (reordered branches targets).map (·.2), PointsTo branch name) ↔
      ¬ Mistaken branches targets name := by
  have hmem : ∀ {branch}, branch ∈ (reordered branches targets).map (·.2) ↔
      branch ∈ (placed branches).map (·.2) ∨
        branch ∈ ((meanings branches targets).filter (·.1.isNone)).map (·.2) := by
    intro branch
    rw [((reordered_perm branches targets).map _).mem_iff, List.map_append, List.mem_append]
  constructor
  · rintro ⟨branch, hbranch, hpoints⟩ hmistaken
    obtain hold | hnew := hmem.mp hbranch
    · obtain ⟨fields, hfields, rfl⟩ := mem_values_placed.mp hold
      exact hmistaken.unnamed fields hfields hpoints
    · obtain ⟨o, ho, rfl⟩ := List.mem_map.mp hnew
      obtain ⟨t, ht, rfl, hends⟩ := mem_meanings_of_isNone.mp ho
      obtain ⟨ref, href, hname⟩ := hpoints
      rw [refersBy_referenceTo.mp href] at hname
      obtain ⟨fields, hfields, htaken⟩ := hmistaken.taken t ht hname
      rw [hends fields hfields] at htaken
      cases htaken
  -- a name that nothing covers has no branch, and no target of it has a reference of its own
  · intro hclear
    by_contra huncovered
    refine hclear ⟨fun fields hfields hpoints => huncovered ⟨_, hmem.mpr (Or.inl ?_), hpoints⟩,
      fun t ht hname => ?_⟩
    · exact mem_values_placed.mpr ⟨fields, hfields, rfl⟩
    · by_contra hfree
      refine huncovered ⟨referenceTo t, hmem.mpr (Or.inr ?_), t, refersBy_referenceTo.mpr rfl, hname⟩
      refine List.mem_map_of_mem (mem_meanings_of_isNone.mpr ⟨t, ht, rfl, fun fields hfields => ?_⟩)
      exact Bool.eq_false_iff.mpr fun hends => hfree ⟨fields, hfields, hends⟩

/-- A name from a slash on is the name of every reference that ends in it. -/
theorem targetName_of_suffix {ref : String} (hslash : '/' ∈ target.toList)
    (hends : target.toList <:+ ref.toList) : Naming.targetName ref = Naming.targetName target := by
  obtain ⟨before, hbefore⟩ := hends
  have hstops : (target.toList.reverse.takeWhile (· != '/')).length ≠
      target.toList.reverse.length := by
    intro hall
    have hself := (List.takeWhile_prefix (· != '/')).eq_of_length hall
    have hne := List.takeWhile_eq_self_iff.mp hself '/' (List.mem_reverse.mpr hslash)
    cases hne
  unfold Naming.targetName afterLast
  rw [← hbefore, List.reverse_append, List.takeWhile_append, if_neg hstops]

/-- A target with a slash is not mistaken for other branches. -/
theorem not_mistaken_of_slash (htarget : target ∈ targets) (hslash : '/' ∈ target.toList) :
    ¬ Mistaken branches targets (Naming.targetName target) := by
  intro hmistaken
  obtain ⟨fields, hfields, hends⟩ := hmistaken.taken target htarget rfl
  obtain ⟨ref, href, hsuffix⟩ := endsIn_iff.mp hends
  exact hmistaken.unnamed fields hfields ⟨ref, href, targetName_of_suffix hslash hsuffix⟩

/-- **The order of a mapping loses nothing and covers the targets**: what the targets mean comes
first, each once and in their order, then the other branches in theirs; every branch is there; and a
target is covered unless it is mistaken, as no target with a slash is. -/
theorem orderByMapping_complete (mapping : List (Scalar × String)) (branches : List Fields) :
    ∃ result, orderByMapping (.object (mapping.map fun f => (f.1, .text f.2)))
        (branches.map .object) = .ok result ∧
      result = (reordered branches (mapping.map (·.2))).map (·.2) ∧
      result ~ branches.map .object ++
        ((meanings branches (mapping.map (·.2))).filter (·.1.isNone)).map (·.2) ∧
      ∀ target ∈ mapping.map (·.2),
        ((∃ branch ∈ result, PointsTo branch (Naming.targetName target)) ↔
          ¬ Mistaken branches (mapping.map (·.2)) (Naming.targetName target)) ∧
        ('/' ∈ target.toList → ∃ branch ∈ result, PointsTo branch (Naming.targetName target)) := by
  refine ⟨_, orderByMapping_eq mapping branches, rfl, ?_, fun target htarget => ⟨covered_iff, ?_⟩⟩
  · rw [← values_placed, ← List.map_append]
    exact (reordered_perm branches _).map _
  · exact fun hslash => covered_iff.mpr (not_mistaken_of_slash htarget hslash)

theorem orderByMapping_complete_pets :
    ∃ result, orderByMapping
        (.object [(.text "c", .text "#/components/schemas/Cat"), (.text "d", .text "Dog")])
        [referenceTo "#/components/schemas/Bird", referenceTo "#/components/schemas/Dog"] =
          .ok result ∧
      result = [referenceTo "#/components/schemas/Cat", referenceTo "#/components/schemas/Dog",
        referenceTo "#/components/schemas/Bird"] ∧
      ∃ branch ∈ result, PointsTo branch "Cat" := by
  obtain ⟨result, hresult, -, -, hcovered⟩ := orderByMapping_complete
    [(.text "c", "#/components/schemas/Cat"), (.text "d", "Dog")]
    [[(.text "$ref", .text "#/components/schemas/Bird")],
      [(.text "$ref", .text "#/components/schemas/Dog")]]
  exact ⟨result, hresult, Except.ok.inj (hresult.symm.trans rfl),
    (hcovered _ List.mem_cons_self).2 (by decide)⟩

/-- **A short target may be taken for the end of another name**, and then nothing covers it. -/
theorem orderByMapping_mistaken :
    orderByMapping (.object [(.text "c", .text "Cat")]) [referenceTo "#/components/schemas/BobCat"] =
        .ok [referenceTo "#/components/schemas/BobCat"] ∧
      ¬ ∃ branch ∈ [referenceTo "#/components/schemas/BobCat"], PointsTo branch "Cat" := by
  refine ⟨rfl, ?_⟩
  rintro ⟨branch, hbranch, ref, href, hname⟩
  rw [List.mem_singleton.mp hbranch, refersBy_referenceTo] at href
  rw [href] at hname
  exact absurd hname (by decide)

end Compile

end SchemaForge
