import Mathlib.Data.List.Basic
import Mathlib.Logic.Relation
import Mathlib.Tactic.Linarith
import SchemaForge.Compile.Union
import SchemaForge.Proofs.Document.Fields
import SchemaForge.Proofs.Document.Sameness
import SchemaForge.Proofs.Outcome

/-!
# What branches require

A walk from a branch goes along references to their targets and down into `allOf` members. The names
that a branch requires are those that a schema without a reference lists somewhere on such a walk,
no matter how references lead back to where they came from.

The walk of the compiler follows no reference twice on one way. Nothing is lost by that: whatever is
found beyond the second time is found beyond the last time, by a way that does without it
(`WalksAvoiding.cons`). And its bound is never met: between two references the walk goes down in a
schema, and it takes references away from the finitely many that there are (`Bounded`).
-/

namespace SchemaForge

open Relation

/-! ## Texts inside of documents -/

mutual

/-- All texts that stand in a document. -/
def Value.texts : Value → List String
  | .scalar (.text s) => [s]
  | .scalar _ => []
  | .list items => Value.textsAll items
  | .object fields => Fields.texts fields

/-- All texts that stand in the documents of a list. -/
def Value.textsAll : List Value → List String
  | [] => []
  | v :: vs => v.texts ++ Value.textsAll vs

/-- All texts that stand below the fields of an object. -/
def Fields.texts : List (Scalar × Value) → List String
  | [] => []
  | (_, v) :: fields => v.texts ++ Fields.texts fields

end

mutual

theorem Value.length_texts_le : ∀ v : Value, v.texts.length ≤ v.weight
  | .scalar s => by cases s <;> simp [Value.texts, Value.weight]
  | .list items => by
    rw [Value.texts, Value.weight]
    have := Value.length_textsAll_le items
    omega
  | .object fields => by
    rw [Value.texts, Value.weight]
    have := Fields.length_texts_le fields
    omega

theorem Value.length_textsAll_le : ∀ vs : List Value, (Value.textsAll vs).length ≤ Value.weightAll vs
  | [] => Nat.le_refl 0
  | v :: vs => by
    rw [Value.textsAll, Value.weightAll, List.length_append]
    exact Nat.add_le_add v.length_texts_le (Value.length_textsAll_le vs)

theorem Fields.length_texts_le : ∀ fields : List (Scalar × Value),
    (Fields.texts fields).length ≤ Fields.weight fields
  | [] => Nat.le_refl 0
  | (_, v) :: fields => by
    rw [Fields.texts, Fields.weight, List.length_append]
    exact Nat.add_le_add v.length_texts_le (Fields.length_texts_le fields)

end

theorem Value.weight_le_of_mem : ∀ {vs : List Value} {v : Value}, v ∈ vs →
    v.weight ≤ Value.weightAll vs
  | w :: vs, v, h => by
    rw [Value.weightAll]
    rcases List.mem_cons.mp h with rfl | h
    · exact Nat.le_add_right _ _
    · exact Nat.le_add_left_of_le (Value.weight_le_of_mem h)

theorem Value.texts_subset_of_mem : ∀ {vs : List Value} {v : Value}, v ∈ vs →
    v.texts ⊆ Value.textsAll vs
  | w :: vs, v, h => by
    rw [Value.textsAll]
    rcases List.mem_cons.mp h with rfl | h
    · exact List.subset_append_left _ _
    · exact List.subset_append_of_subset_right _ (Value.texts_subset_of_mem h)

/-- A field weighs no more than the object. -/
theorem Fields.weight_le_of_mem : ∀ {fields : List (Scalar × Value)} {f : Scalar × Value},
    f ∈ fields → f.2.weight ≤ Fields.weight fields
  | (k, w) :: fields, f, h => by
    rw [Fields.weight]
    rcases List.mem_cons.mp h with rfl | h
    · exact Nat.le_add_right _ _
    · exact Nat.le_add_left_of_le (Fields.weight_le_of_mem h)

/-- The texts of a field are among those of the object. -/
theorem Fields.texts_subset_of_mem : ∀ {fields : List (Scalar × Value)} {f : Scalar × Value},
    f ∈ fields → f.2.texts ⊆ Fields.texts fields
  | (k, w) :: fields, f, h => by
    rw [Fields.texts]
    rcases List.mem_cons.mp h with rfl | h
    · exact List.subset_append_left _ _
    · exact List.subset_append_of_subset_right _ (Fields.texts_subset_of_mem h)

/-- What a document is walked over is no bigger than the document, and has no texts besides those of
the document unless it is a name or a character. -/
theorem Value.within_of_walkIfSet {v m : Value} {items : List Value} (h : v.walkIfSet = .ok items)
    (hm : m ∈ items) : m.weight ≤ v.weight ∧ (m.isObject = true → m.texts ⊆ v.texts) := by
  unfold Value.walkIfSet at h
  split at h
  · cases v with
    | list vs =>
      cases h
      rw [Value.weight, Value.texts]
      exact ⟨Nat.le_add_left_of_le (Value.weight_le_of_mem hm), fun _ => Value.texts_subset_of_mem hm⟩
    | object fields =>
      cases h
      obtain ⟨f, -, rfl⟩ := List.mem_map.mp hm
      exact ⟨by simp [Value.weight], nofun⟩
    | scalar s =>
      cases s with
      | text t =>
        cases h
        obtain ⟨c, -, rfl⟩ := List.mem_map.mp hm
        exact ⟨by simp [Value.weight], nofun⟩
      | _ => cases h
  · cases h
    cases hm

namespace Compile

/-! ## Walks -/

/-- A value that is a reference with the given text. -/
def RefersBy (v : Value) (ref : String) : Prop :=
  ∃ fields, v = .object fields ∧ Fields.get? fields "$ref" = some (.text ref)

/-- A reference leads to its target, if that is known, and any other schema to its `allOf` members. -/
inductive LeadsTo (schemas : Fields) : Value → Value → Prop where
  | target {v : Value} {ref : String} (refers : RefersBy v ref)
      (known : schemas.value (Naming.targetName ref) ≠ .null) :
      LeadsTo schemas v (schemas.value (Naming.targetName ref))
  | member {fields : Fields} {members : List Value} {m : Value} (own : fields.has "$ref" = false)
      (walked : (fields.value "allOf").walkIfSet = .ok members) (listed : m ∈ members) :
      LeadsTo schemas (.object fields) m

/-- There is a walk from one value to another. -/
def WalksTo (schemas : Fields) : Value → Value → Prop := ReflTransGen (LeadsTo schemas)

/-- A schema lists a name among its required ones. -/
def ListsRequired (schema : Fields) (property : Value) : Prop :=
  ∃ entries, (schema.value "required").walkIfSet = .ok entries ∧
    ∃ entry ∈ entries, entry.same property = true

/-- A branch requires a name: a schema without a reference that it walks to lists the name. -/
def Requires (schemas : Fields) (property branch : Value) : Prop :=
  ∃ schema : Fields, WalksTo schemas branch (.object schema) ∧ schema.has "$ref" = false ∧
    ListsRequired schema property

variable {schemas fields : Fields} {v w u : Value} {ref : String} {seen : List String}

/-- A branch has one reference at most. -/
theorem RefersBy.unique {ref' : String} (h : RefersBy v ref) (h' : RefersBy v ref') : ref = ref' := by
  obtain ⟨fields, rfl, hget⟩ := h
  obtain ⟨fields', hv, hget'⟩ := h'
  cases hv
  rw [hget] at hget'
  cases hget'
  rfl

theorem not_refersBy (h : fields.has "$ref" = false) : ¬ RefersBy (.object fields) ref := by
  rintro ⟨fields', hv, hget⟩
  cases hv
  rw [Fields.has, hget] at h
  cases h

/-- A reference leads to its definition only. -/
theorem LeadsTo.eq_target (h : LeadsTo schemas v w) (href : RefersBy v ref) :
    w = schemas.value (Naming.targetName ref) ∧ w ≠ .null := by
  cases h with
  | target refers known =>
    rw [href.unique refers]
    exact ⟨rfl, known⟩
  | member own walked listed => exact absurd href (not_refersBy own)

/-- Without one a branch leads to its members. -/
theorem LeadsTo.exists_members (h : LeadsTo schemas (.object fields) w)
    (hown : fields.has "$ref" = false) :
    ∃ members, (fields.value "allOf").walkIfSet = .ok members ∧ w ∈ members := by
  cases h with
  | target refers known => exact absurd refers (not_refersBy hown)
  | member own walked listed => exact ⟨_, walked, listed⟩

/-! ## Walks that avoid references -/

/-- One step of a walk that follows none of some references. -/
def LeadsAvoiding (schemas : Fields) (seen : List String) (v w : Value) : Prop :=
  LeadsTo schemas v w ∧ ∀ ref, RefersBy v ref → ref ∉ seen

/-- There is a walk that follows none of some references. -/
def WalksAvoiding (schemas : Fields) (seen : List String) : Value → Value → Prop :=
  ReflTransGen (LeadsAvoiding schemas seen)

theorem walksAvoiding_nil : WalksAvoiding schemas [] v w ↔ WalksTo schemas v w := by
  have hstep : LeadsAvoiding schemas [] = LeadsTo schemas := by
    funext v w
    simp [LeadsAvoiding]
  rw [WalksAvoiding, WalksTo, hstep]

/-- **A walk that follows a reference goes on from its target without following it again.** Beyond the
last time that it is followed the walk avoids it. -/
theorem WalksAvoiding.cons (ref : String) (h : WalksAvoiding schemas seen v u) :
    WalksAvoiding schemas (ref :: seen) v u ∨
      WalksAvoiding schemas (ref :: seen) (schemas.value (Naming.targetName ref)) u := by
  induction h using ReflTransGen.head_induction_on with
  | refl => exact Or.inl .refl
  | @head a b hstep _ ih =>
    rcases ih with hfrom | htarget
    -- the rest of the walk avoids the reference: this step is the last that may follow it
    · by_cases href : RefersBy a ref
      · rw [← (hstep.1.eq_target href).1]
        exact Or.inr hfrom
      · refine Or.inl (.head ⟨hstep.1, fun ref' href' => ?_⟩ hfrom)
        rintro hmem
        rcases List.mem_cons.mp hmem with rfl | hmem
        · exact href href'
        · exact hstep.2 ref' href' hmem
    · exact Or.inr htarget

/-- Avoiding fewer references allows more walks. -/
theorem WalksAvoiding.weaken (h : WalksAvoiding schemas (ref :: seen) v u) :
    WalksAvoiding schemas seen v u :=
  ReflTransGen.mono (fun _ _ hstep =>
    ⟨hstep.1, fun ref' href hmem => hstep.2 ref' href (List.mem_cons_of_mem _ hmem)⟩) _ _ h

/-- A schema without a reference that a value walks to, following none of some references, is of a
kind. -/
def MeetsAvoiding (schemas : Fields) (seen : List String) (P : Fields → Prop) (v : Value) : Prop :=
  ∃ schema : Fields, WalksAvoiding schemas seen v (.object schema) ∧ schema.has "$ref" = false ∧
    P schema

/-- `Requires`, by a walk that follows none of some references. -/
def RequiresAvoiding (schemas : Fields) (seen : List String) (property branch : Value) : Prop :=
  ∃ schema : Fields, WalksAvoiding schemas seen branch (.object schema) ∧
    schema.has "$ref" = false ∧ ListsRequired schema property

section Meeting

variable {P : Fields → Prop}

/-- A reference meets what its target does, if it is known and not to be avoided. -/
theorem meetsAvoiding_reference (href : RefersBy v ref) :
    MeetsAvoiding schemas seen P v ↔
      schemas.value (Naming.targetName ref) ≠ .null ∧ ref ∉ seen ∧
        MeetsAvoiding schemas (ref :: seen) P (schemas.value (Naming.targetName ref)) := by
  constructor
  · rintro ⟨schema, hwalk, hown, hmet⟩
    rcases hwalk.cases_head with rfl | ⟨w, hstep, hrest⟩
    · exact absurd href (not_refersBy hown)
    -- the walk goes on from the target, and may be taken not to come by the reference again
    · obtain ⟨rfl, hknown⟩ := hstep.1.eq_target href
      have hrest : WalksAvoiding schemas seen (schemas.value (Naming.targetName ref))
        (.object schema) := hrest
      refine ⟨hknown, hstep.2 ref href, schema, ?_, hown, hmet⟩
      exact (hrest.cons ref).elim id id
  · rintro ⟨hknown, hfresh, schema, hwalk, hown, hmet⟩
    refine ⟨schema, .head ⟨.target href hknown, fun ref' href' => ?_⟩ hwalk.weaken, hown, hmet⟩
    rwa [href'.unique href]

/-- Any other schema meets itself and what its `allOf` members meet. -/
theorem meetsAvoiding_object (hown : fields.has "$ref" = false) {members : List Value}
    (hmembers : (fields.value "allOf").walkIfSet = .ok members) :
    MeetsAvoiding schemas seen P (.object fields) ↔
      P fields ∨ ∃ m ∈ members, MeetsAvoiding schemas seen P m := by
  constructor
  · rintro ⟨schema, hwalk, hschema, hmet⟩
    rcases hwalk.cases_head with heq | ⟨w, hstep, hrest⟩
    · cases heq
      exact Or.inl hmet
    · obtain ⟨members', hmembers', hlisted⟩ := hstep.1.exists_members hown
      rw [hmembers] at hmembers'
      cases hmembers'
      exact Or.inr ⟨w, hlisted, schema, hrest, hschema, hmet⟩
  · rintro (hmet | ⟨m, hm, schema, hwalk, hschema, hmet⟩)
    · exact ⟨fields, .refl, hown, hmet⟩
    · refine ⟨schema, .head ⟨.member hown hmembers hm, fun ref href => ?_⟩ hwalk, hschema, hmet⟩
      exact absurd href (not_refersBy hown)

/-- A reference requires what its target does, if it is known and not to be avoided. -/
theorem requiresAvoiding_reference {property : Value} (href : RefersBy v ref) :
    RequiresAvoiding schemas seen property v ↔
      schemas.value (Naming.targetName ref) ≠ .null ∧ ref ∉ seen ∧
        RequiresAvoiding schemas (ref :: seen) property (schemas.value (Naming.targetName ref)) :=
  meetsAvoiding_reference href

/-- Any other schema requires what it lists and what its `allOf` members require. -/
theorem requiresAvoiding_object {property : Value} (hown : fields.has "$ref" = false)
    {members : List Value} (hmembers : (fields.value "allOf").walkIfSet = .ok members) :
    RequiresAvoiding schemas seen property (.object fields) ↔
      ListsRequired fields property ∨
        ∃ m ∈ members, RequiresAvoiding schemas seen property m :=
  meetsAvoiding_object hown hmembers

end Meeting

/-! ## The bound -/

/-- The references on walks from a value are among some texts, and a number of steps is enough for
the texts that are not to be avoided and the size of the value. -/
def Bounded (schemas : Fields) (fuel : Nat) (seen : List String) (v : Value) : Prop :=
  ∃ texts : List String, (∀ u, WalksTo schemas v u → ∀ ref, RefersBy u ref → ref ∈ texts) ∧
    (texts.filter (· ∉ seen)).length * (Fields.weight schemas + 1) + v.weight ≤ fuel

theorem one_le_weight (v : Value) : 1 ≤ v.weight := by
  cases v <;> simp only [Value.weight] <;> omega

theorem not_bounded_zero : ¬ Bounded schemas 0 seen v := by
  rintro ⟨texts, -, hle⟩
  have := one_le_weight v
  omega

/-- Following a reference uses it up. -/
theorem Bounded.target {fuel : Nat} (h : Bounded schemas (fuel + 1) seen v) (href : RefersBy v ref)
    (hknown : schemas.value (Naming.targetName ref) ≠ .null) (hfresh : ref ∉ seen) :
    Bounded schemas fuel (ref :: seen) (schemas.value (Naming.targetName ref)) := by
  obtain ⟨texts, hcover, hle⟩ := h
  refine ⟨texts, fun u hu => hcover u (.head (.target href hknown) hu), ?_⟩
  -- one reference less is left to follow, which outweighs the size of its target
  have hfewer : (texts.filter (· ∉ ref :: seen)).length < (texts.filter (· ∉ seen)).length := by
    have hfilter : texts.filter (· ∉ ref :: seen) =
        (texts.filter (· ∉ seen)).filter (· ≠ ref) := by
      rw [List.filter_filter]
      refine List.filter_congr fun t _ => ?_
      simp
    rw [hfilter, List.length_filter_lt_length_iff_exists]
    exact ⟨ref, List.mem_filter.mpr ⟨hcover v .refl ref href, by simpa using hfresh⟩, by simp⟩
  have hweight : (schemas.value (Naming.targetName ref)).weight ≤ Fields.weight schemas :=
    Fields.weight_le_of_mem (Fields.mem_of_get? (Fields.get?_of_has (Fields.has_of_value_ne hknown)))
  have hmul := Nat.mul_le_mul_right (Fields.weight schemas + 1) (Nat.succ_le_of_lt hfewer)
  rw [Nat.succ_mul] at hmul
  have := one_le_weight v
  omega

theorem weight_member_lt {members : List Value} {m : Value}
    (hmembers : (fields.value "allOf").walkIfSet = .ok members) (hm : m ∈ members) :
    m.weight < (Value.object fields).weight := by
  have hle := (Value.within_of_walkIfSet hmembers hm).1
  by_cases hhas : fields.has "allOf" = true
  · have hvalue : (fields.value "allOf").weight ≤ Fields.weight fields :=
      Fields.weight_le_of_mem (Fields.mem_of_get? (Fields.get?_of_has hhas))
    rw [Value.weight]
    omega
  · rw [Fields.value_eq_null hhas] at hmembers
    cases hmembers
    cases hm

/-- Going into a member makes the branch lighter. -/
theorem Bounded.member {fuel : Nat} (h : Bounded schemas (fuel + 1) seen (.object fields))
    (hown : fields.has "$ref" = false) {members : List Value} {m : Value}
    (hmembers : (fields.value "allOf").walkIfSet = .ok members) (hm : m ∈ members) :
    Bounded schemas fuel seen m := by
  obtain ⟨texts, hcover, hle⟩ := h
  refine ⟨texts, fun u hu => hcover u (.head (.member hown hmembers hm) hu), ?_⟩
  -- the same references are left, and the member is smaller than the schema
  have := weight_member_lt hmembers hm
  omega

/-- No texts but those of the branch and of the schemas stand in a schema on a walk. -/
theorem texts_subset_of_walk (h : WalksTo schemas v u) :
    u.isObject = true → u.texts ⊆ v.texts ++ Fields.texts schemas := by
  induction h with
  | refl => exact fun _ => List.subset_append_left _ _
  | tail _ hstep ih =>
    intro hobject
    cases hstep with
    | target refers known =>
      refine List.subset_append_of_subset_right _ ?_
      exact Fields.texts_subset_of_mem
        (Fields.mem_of_get? (Fields.get?_of_has (Fields.has_of_value_ne known)))
    | @member fields members m own walked listed =>
      have hhas : fields.has "allOf" = true := by
        by_contra hno
        rw [Fields.value_eq_null hno] at walked
        cases walked
        cases listed
      have hvalue := Fields.texts_subset_of_mem (Fields.mem_of_get? (Fields.get?_of_has hhas))
      have hmember := (Value.within_of_walkIfSet walked listed).2 hobject
      exact List.Subset.trans (List.Subset.trans hmember hvalue) (ih rfl)

/-- Every reference on a walk is a text of the branch or of the document. -/
theorem mem_texts_of_walk (h : WalksTo schemas v u) (href : RefersBy u ref) :
    ref ∈ v.texts ++ Fields.texts schemas := by
  obtain ⟨fields, rfl, hget⟩ := href
  refine texts_subset_of_walk h rfl ?_
  rw [Value.texts]
  exact Fields.texts_subset_of_mem (Fields.mem_of_get? hget) (by simp [Value.texts])

/-- **The walk of the compiler has enough steps.** -/
theorem bounded_walkBound (schemas : Fields) (branch : Value) :
    Bounded schemas (walkBound schemas branch) [] branch := by
  refine ⟨branch.texts ++ Fields.texts schemas, fun u hu ref => mem_texts_of_walk hu, ?_⟩
  have htexts := branch.length_texts_le
  have hschemas := Fields.length_texts_le schemas
  have hlength : ((branch.texts ++ Fields.texts schemas).filter (· ∉ ([] : List String))).length ≤
      branch.weight + Fields.weight schemas := by
    simp only [List.not_mem_nil, not_false_eq_true, decide_true, List.filter_true, List.length_append]
    omega
  have hmul := Nat.mul_le_mul_right (Fields.weight schemas + 1) hlength
  -- with weights `w` and `s` of branch and schemas, `(w + s) * (s + 1) + w ≤ (s + w + 1) ^ 2`
  unfold walkBound
  dsimp only
  nlinarith [Nat.zero_le (branch.weight * branch.weight),
    Nat.zero_le (branch.weight * Fields.weight schemas)]

/-! ## Required names -/

theorem unionNames_any {name : Scalar} : ∀ {more found : List Scalar},
    (unionNames found more).any (·.same name) = true ↔
      found.any (·.same name) = true ∨ more.any (·.same name) = true
  | [], found => by simp [unionNames]
  | n :: more, found => by
    have hnext : unionNames found (n :: more) =
        unionNames (if found.any (·.same n) then found else found ++ [n]) more := rfl
    rw [hnext, unionNames_any, List.any_cons, Bool.or_eq_true, ← or_assoc]
    refine or_congr_left ?_
    split
    · rename_i hfound
      -- a name that is left out is the same as one that is there
      obtain ⟨f, hf, hfn⟩ := List.any_eq_true.mp hfound
      refine ⟨Or.inl, fun h => h.elim id fun hn => ?_⟩
      exact List.any_eq_true.mpr ⟨f, hf, Scalar.same_trans hfn hn⟩
    · simp [List.any_append]

theorem branchRef?_eq_some (h : branchRef? v = .ok (some ref)) : RefersBy v ref := by
  obtain ⟨isRef, hholds, h⟩ := Outcome.bind_eq_ok.mp h
  split at h
  · obtain ⟨entry, hentry, h⟩ := Outcome.bind_eq_ok.mp h
    split at h
    · cases h
      cases v with
      | object fields =>
        refine ⟨fields, rfl, ?_⟩
        unfold Value.entry at hentry
        dsimp only at hentry
        split at hentry
        · rename_i hget
          cases hentry
          exact hget
        · cases hentry
      | scalar s => cases hentry
      | list vs => cases hentry
    · cases h
  · cases h

theorem branchRef?_eq_none (h : branchRef? (.object fields) = .ok none) :
    fields.has "$ref" = false := by
  obtain ⟨isRef, hholds, h⟩ := Outcome.bind_eq_ok.mp h
  cases hholds
  split at h
  · obtain ⟨entry, -, h⟩ := Outcome.bind_eq_ok.mp h
    split at h
    · cases h
    · cases h
  · rename_i hno
    simpa using hno

theorem any_asName {entries : List Value} {own : List Scalar} {name : Scalar}
    (h : entries.mapM Value.asName = .ok own) :
    own.any (·.same name) = true ↔ ∃ entry ∈ entries, entry.same (.scalar name) = true := by
  have hall := Outcome.forall₂_of_mapM h
  have heq : ∀ {entry : Value} {n : Scalar}, entry.asName = .ok n → entry = .scalar n := by
    intro entry n hn
    cases entry with
    | scalar s =>
      cases hn
      rfl
    | list vs => cases hn
    | object fields => cases hn
  rw [List.any_eq_true]
  constructor
  · rintro ⟨n, hn, hsame⟩
    obtain ⟨entry, hentry, hname⟩ := Outcome.exists_left_of_mem hall hn
    refine ⟨entry, hentry, ?_⟩
    rw [heq hname]
    exact hsame
  · rintro ⟨entry, hentry, hsame⟩
    obtain ⟨n, hn, hname⟩ := Outcome.exists_right_of_mem hall hentry
    rw [heq hname] at hsame
    exact ⟨n, hn, hsame⟩

/-- What is found in members is added to what is there: it has what was there and what one of the
members has. -/
theorem foldlM_joined {α : Type} {join : α → α → α} {has : α → Prop}
    (hjoin : ∀ found more, has (join found more) ↔ has found ∨ has more)
    {find : Value → Except Fault α} {P : Value → Prop} : ∀ {members : List Value} {own all : α},
    (∀ m ∈ members, ∀ found, find m = .ok found → (has found ↔ P m)) →
    members.foldlM (fun found m => do return join found (← find m)) own = .ok all →
    (has all ↔ has own ∨ ∃ m ∈ members, P m)
  | [], _, _, _, h => by
    cases h
    simp
  | m :: members, own, all, hfind, h => by
    rw [List.foldlM_cons] at h
    obtain ⟨next, hnext, h⟩ := Outcome.bind_eq_ok.mp h
    obtain ⟨found, hfound, hnext⟩ := Outcome.bind_eq_ok.mp hnext
    cases hnext
    obtain ⟨hm, hrest⟩ := List.forall_mem_cons.mp hfind
    rw [foldlM_joined hjoin hrest h, hjoin, hm found hfound, or_assoc]
    simp

/-- **By induction on the steps left: what the walk finds is what is required**, as far as no reference
is followed again. -/
theorem branchRequired_iff {name : Scalar} : ∀ {fuel : Nat} {seen : List String} {v : Value}
    {names : List Scalar}, Bounded schemas fuel seen v →
    branchRequired schemas fuel seen v = .ok names →
    (names.any (·.same name) = true ↔ RequiresAvoiding schemas seen (.scalar name) v)
  | 0, _, _, _, hbound, _ => absurd hbound not_bounded_zero
  | fuel + 1, seen, v, names, hbound, h => by
    obtain ⟨ref?, href, h⟩ := Outcome.bind_eq_ok.mp h
    cases ref? with
    | some ref =>
      have hrefers := branchRef?_eq_some href
      rw [requiresAvoiding_reference hrefers]
      dsimp only at h
      split at h
      · rename_i hnull
        cases h
        simp [hnull]
      · rename_i hknown
        split at h
        · rename_i hseen
          cases h
          have hmem : ref ∈ seen := by simpa using hseen
          simp [hmem]
        · rename_i hfresh
          have hfresh : ref ∉ seen := by simpa using hfresh
          rw [branchRequired_iff (hbound.target hrefers hknown hfresh) h]
          exact ⟨fun hrequires => ⟨hknown, hfresh, hrequires⟩, fun hrequires => hrequires.2.2⟩
    | none =>
      dsimp only at h
      obtain ⟨fields, hfields, h⟩ := Outcome.bind_eq_ok.mp h
      obtain ⟨entries, hentries, h⟩ := Outcome.bind_eq_ok.mp h
      obtain ⟨own, hown, h⟩ := Outcome.bind_eq_ok.mp h
      obtain ⟨members, hmembers, hfold⟩ := Outcome.bind_eq_ok.mp h
      obtain rfl := Value.eq_object_of_fields hfields
      have hnoRef := branchRef?_eq_none href
      rw [requiresAvoiding_object hnoRef hmembers,
        foldlM_joined (fun _ _ => unionNames_any) (fun m hm found hfound =>
          branchRequired_iff (hbound.member hnoRef hmembers hm) hfound) hfold, any_asName hown]
      refine or_congr_left ⟨fun hlisted => ⟨entries, hentries, hlisted⟩, ?_⟩
      rintro ⟨entries', hentries', hlisted⟩
      rw [hentries] at hentries'
      cases hentries'
      exact hlisted

/-- **The names found for a branch are those that it requires.** -/
theorem requiredOf_iff {names : List Scalar} (h : requiredOf schemas v = .ok names) (name : Scalar) :
    names.any (·.same name) = true ↔ Requires schemas (.scalar name) v := by
  rw [branchRequired_iff (bounded_walkBound schemas v) h]
  simp only [RequiresAvoiding, walksAvoiding_nil, Requires]

/-- **The search finds whether all branches require the property.** -/
theorem requiredEverywhere_iff {property : Value} : ∀ {branches : List Value} {b : Bool},
    requiredEverywhere schemas property branches = .ok b →
    (b = true ↔ ∀ branch ∈ branches, Requires schemas property branch)
  | [], _, h => by
    cases h
    simp
  | branch :: rest, b, h => by
    obtain ⟨names, hnames, h⟩ := Outcome.bind_eq_ok.mp h
    obtain ⟨name, hname, h⟩ := Outcome.bind_eq_ok.mp h
    obtain rfl : property = .scalar name := by
      cases property with
      | scalar s =>
        cases hname
        rfl
      | list vs => cases hname
      | object fields => cases hname
    have hfirst := requiredOf_iff hnames name
    rw [List.forall_mem_cons, ← hfirst]
    split at h
    · rename_i hrequired
      rw [requiredEverywhere_iff h, hrequired]
      simp
    · rename_i hmissing
      cases h
      simp [hmissing]

end Compile

end SchemaForge
