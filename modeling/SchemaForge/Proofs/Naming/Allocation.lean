import Mathlib.Data.List.Nodup
import Mathlib.Data.List.Perm.Subperm
import Mathlib.Logic.Relation
import Mathlib.Order.Bounds.Defs
import SchemaForge.Naming.Allocation

/-!
# What a name is allocated as

`freeName_cases` says which name is allocated: the candidate if it is free, and else the candidate
with the smallest number from two on that makes it free. That there is such a number within the steps
of the search is a matter of counting: `n + 1` numbered candidates are all different, so `n` taken
names leave one of them free.

The search tries the candidate and then its numbers one by one, and comes to its end at the allocated
name (`allocates_freeName`). Of names that are allocated one after another, each is allocated when
those before it are taken (`AllocatesAll`, by `exists_allocateAll`), so they are all different.
-/

namespace SchemaForge.Naming

open Relation

theorem numbered_injective (candidate : String) : Function.Injective (numbered candidate) := by
  intro j k h
  have hdigits : Nat.toDigits 10 j = Nat.toDigits 10 k := by
    simpa [numbered] using congrArg String.toList h
  simpa using congrArg (fun digits => Nat.ofDigitChars 10 digits 0) hdigits

theorem exists_numbered_not_mem (candidate : String) (used : List String) (k : Nat) :
    ∃ n, k ≤ n ∧ n ≤ k + used.length ∧ numbered candidate n ∉ used := by
  by_contra hall
  push Not at hall
  -- one candidate more than there are names taken
  have hnodup : ((List.range (used.length + 1)).map fun i => numbered candidate (k + i)).Nodup := by
    refine List.Nodup.map (fun i j h => ?_) List.nodup_range
    exact Nat.add_left_cancel (numbered_injective candidate h)
  have hsub : ((List.range (used.length + 1)).map fun i => numbered candidate (k + i)) ⊆ used := by
    intro name hname
    obtain ⟨i, hi, rfl⟩ := List.mem_map.mp hname
    rw [List.mem_range] at hi
    exact hall (k + i) (by omega) (by omega)
  have hlength := (List.subperm_of_subset hnodup hsub).length_le
  rw [List.length_map, List.length_range] at hlength
  omega

/-- What a search gives: a numbered candidate, all before it taken, and itself free unless the search
ran out of steps. -/
theorem exists_firstFree (candidate : String) (used : List String) : ∀ (steps k : Nat),
    ∃ n, firstFree candidate used k steps = numbered candidate n ∧ k ≤ n ∧ (∀ m, k ≤ m → m < n → numbered candidate m ∈ used) ∧
    (n < k + steps → numbered candidate n ∉ used)
  | 0, k => ⟨k, rfl, Nat.le_refl k, fun m _ _ => by omega, fun h => by omega⟩
  | steps + 1, k => by
    rw [firstFree]
    split
    · rename_i htaken
      obtain ⟨n, heq, hle, hbefore, hfree⟩ := exists_firstFree candidate used steps (k + 1)
      refine ⟨n, heq, by omega, fun m hm hmn => ?_, fun h => hfree (by omega)⟩
      rcases Nat.eq_or_lt_of_le hm with rfl | hlt
      · simpa using htaken
      · exact hbefore m hlt hmn
    · rename_i hfree
      exact ⟨k, rfl, Nat.le_refl k, fun m _ _ => by omega, fun _ => by simpa using hfree⟩

/-- **A search through as many steps as names are taken finds the first free number.** -/
theorem firstFree_spec (candidate : String) (used : List String) (k : Nat) :
    ∃ n, firstFree candidate used k used.length = numbered candidate n ∧ k ≤ n ∧
      numbered candidate n ∉ used ∧ ∀ m, k ≤ m → m < n → numbered candidate m ∈ used := by
  obtain ⟨n, heq, hle, hbefore, hfree⟩ := exists_firstFree candidate used used.length k
  refine ⟨n, heq, hle, ?_, hbefore⟩
  obtain ⟨j, hkj, hj, hjfree⟩ := exists_numbered_not_mem candidate used k
  -- a search that went on to its last step passed every free number but that one
  rcases Nat.lt_trichotomy j n with hlt | rfl | hgt
  · exact absurd (hbefore j hkj hlt) hjfree
  · exact hjfree
  · exact hfree (by omega)

theorem freeName_cases (candidate : String) (used : List String) :
    (candidate ∉ used ∧ freeName candidate used = candidate) ∨
      candidate ∈ used ∧ ∃ n, freeName candidate used = numbered candidate n ∧ 2 ≤ n ∧
        numbered candidate n ∉ used ∧ ∀ m, 2 ≤ m → m < n → numbered candidate m ∈ used := by
  unfold freeName
  split
  · rename_i htaken
    exact Or.inr ⟨by simpa using htaken, firstFree_spec candidate used 2⟩
  · rename_i hfree
    exact Or.inl ⟨by simpa using hfree, rfl⟩

/-- An allocated name is its candidate, with a number after it if the candidate is taken. -/
theorem exists_toList_freeName (candidate : String) (used : List String) :
    ∃ number : List Char, (∀ d ∈ number, d.isDigit = true) ∧
      (freeName candidate used).toList = candidate.toList ++ number ∧
      (candidate ∉ used → number = []) := by
  rcases freeName_cases candidate used with ⟨-, heq⟩ | ⟨htaken, k, heq, -⟩
  · rw [heq]
    exact ⟨[], List.forall_mem_nil _, (List.append_nil _).symm, fun _ => rfl⟩
  · refine ⟨Nat.toDigits 10 k, fun d => Nat.isDigit_of_mem_toDigits (by decide) (by decide), ?_,
      fun hfree => absurd htaken hfree⟩
    rw [heq, numbered, String.toList_append, String.toList_ofList]

/-- **An allocated name was free.** -/
theorem freeName_not_mem (candidate : String) (used : List String) :
    freeName candidate used ∉ used := by
  rcases freeName_cases candidate used with ⟨hfree, heq⟩ | ⟨-, n, heq, -, hfree, -⟩
  · rwa [heq]
  · rwa [heq]

/-! ## One call -/

/-- One round of a search: the name that is tried is taken, so the candidate is tried with the next
number, and the number after it comes next. -/
def SearchRound (candidate : String) (taken : List String) (s t : String × Nat) : Prop :=
  s.1 ∈ taken ∧ t = (candidate ++ toString s.2, s.2 + 1)

/-- A name is allocated for a candidate when some names are taken: the candidate itself if it is
free, and else the candidate with its smallest free number. -/
structure Allocates (taken : List String) (candidate name : String) : Prop where
  search : ∃ next, ReflTransGen (SearchRound candidate taken) (candidate, 2) (name, next)
  /-- The search comes to its end at the name. -/
  free : name ∉ taken
  own : candidate ∉ taken → name = candidate
  numbered : candidate ∈ taken → ∃ k,
    IsLeast {k : Nat | 2 ≤ k ∧ candidate ++ toString k ∉ taken} k ∧ name = candidate ++ toString k

/-- A search goes past all numbered candidates that are taken. -/
theorem search_numbered {candidate : String} {taken : List String} (h : candidate ∈ taken) {k : Nat}
    (hk : 2 ≤ k) (hbefore : ∀ m, 2 ≤ m → m < k → numbered candidate m ∈ taken) :
    ReflTransGen (SearchRound candidate taken) (candidate, 2) (numbered candidate k, k + 1) := by
  induction hk with
  | refl => exact .single ⟨h, rfl⟩
  | @step k hk ih =>
    have hrounds := ih fun m hm hlt => hbefore m hm (Nat.lt_succ_of_lt hlt)
    exact hrounds.tail ⟨hbefore k hk (Nat.lt_succ_self k), rfl⟩

/-- **The search for a name comes to its end**, at the candidate if it is free and else at its first
free number. -/
theorem allocates_freeName (taken : List String) (candidate : String) :
    Allocates taken candidate (freeName candidate taken) := by
  rcases freeName_cases candidate taken with ⟨hfree, heq⟩ | ⟨htaken, k, heq, hk, hfree, hbefore⟩
  · rw [heq]
    exact ⟨⟨2, .refl⟩, hfree, fun _ => rfl, fun htaken => absurd htaken hfree⟩
  · rw [heq]
    refine ⟨⟨k + 1, search_numbered htaken hk hbefore⟩, hfree, fun hfree' => absurd htaken hfree',
      fun _ => ⟨k, ⟨⟨hk, hfree⟩, fun m hm => ?_⟩, rfl⟩⟩
    by_contra hlt
    exact hm.2 (hbefore m hm.1 (Nat.lt_of_not_le hlt))

/-! ## Calls one after another -/

/-- Allocates names for candidates, one after another. -/
def allocateAll : List String → Option (List String) → List String × Option (List String)
  | [], used => ([], used)
  | candidate :: candidates, used =>
    let (name, used) := allocate candidate used
    let (names, used) := allocateAll candidates used
    (name :: names, used)

/-- Names that are allocated in turn, each taken from then on. -/
inductive AllocatesAll : (taken candidates names : List String) → Prop where
  | nil {taken : List String} : AllocatesAll taken [] []
  | cons {taken candidates names : List String} {candidate name : String}
      (first : Allocates taken candidate name)
      (rest : AllocatesAll (taken ++ [name]) candidates names) :
      AllocatesAll taken (candidate :: candidates) (name :: names)

/-- **Calls one after another allocate in turn**, and nothing else is taken. -/
theorem exists_allocateAll : ∀ candidates taken : List String, ∃ names,
    allocateAll candidates (some taken) = (names, some (taken ++ names)) ∧
      AllocatesAll taken candidates names
  | [], taken => ⟨[], by rw [allocateAll, List.append_nil], .nil⟩
  | candidate :: candidates, taken => by
    obtain ⟨names, heq, hnames⟩ :=
      exists_allocateAll candidates (taken ++ [freeName candidate taken])
    refine ⟨freeName candidate taken :: names, ?_,
      .cons (allocates_freeName taken candidate) hnames⟩
    rw [allocateAll, allocate, List.append_cons taken _ names]
    dsimp only
    rw [heq]

namespace AllocatesAll

variable {taken candidates names : List String} (h : AllocatesAll taken candidates names)
include h

theorem length_eq : names.length = candidates.length := by
  induction h with
  | nil => rfl
  | cons _ _ ih => exact congrArg Nat.succ ih

/-- A name is allocated when the names before it are taken. -/
theorem allocates : ∀ (i : Nat) (candidate name : String), candidates[i]? = some candidate →
    names[i]? = some name → Allocates (taken ++ names.take i) candidate name := by
  induction h with
  | nil => exact fun i _ _ hi => nomatch hi
  | @cons taken _ names _ first hfirst _ ih =>
    intro i candidate name hcandidate hname
    cases i with
    | zero =>
      cases hcandidate
      cases hname
      simpa using hfirst
    | succ i =>
      rw [List.take_succ_cons, List.append_cons]
      exact ih i candidate name hcandidate hname

theorem not_mem_taken : ∀ name ∈ names, name ∉ taken := by
  induction h with
  | nil => exact List.forall_mem_nil _
  | cons hfirst _ ih =>
    refine List.forall_mem_cons.mpr ⟨hfirst.free, fun name hname hmem => ?_⟩
    exact ih name hname (List.mem_append_left _ hmem)

theorem nodup : names.Nodup := by
  induction h with
  | nil => exact List.nodup_nil
  | cons _ hrest ih =>
    refine List.nodup_cons.mpr ⟨fun hmem => ?_, ih⟩
    exact hrest.not_mem_taken _ hmem (List.mem_append_right _ (List.mem_singleton_self _))

end AllocatesAll

/-- **Names that are allocated one after another are different from each other** and from the names
taken before. Each is its candidate if that is free when it is its turn, and else the candidate with
the smallest number from two on that makes it free. -/
theorem allocateAll_allocates (candidates used : List String) :
    ∃ names final, allocateAll candidates (some used) = (names, some final) ∧
      names.length = candidates.length ∧
      (∀ i candidate name, candidates[i]? = some candidate → names[i]? = some name →
        Allocates (used ++ names.take i) candidate name) ∧
      names.Nodup ∧ (∀ name ∈ names, name ∉ used) ∧
      ∀ name, name ∈ final ↔ name ∈ used ∨ name ∈ names := by
  obtain ⟨names, heq, hnames⟩ := exists_allocateAll candidates used
  exact ⟨names, used ++ names, heq, hnames.length_eq, hnames.allocates, hnames.nodup,
    hnames.not_mem_taken, fun _ => List.mem_append⟩

/-- A candidate can ask for a name that was numbered before. -/
example : (allocateAll ["user", "user", "user2", "user"] (some ["user3"])).1 =
    ["user", "user2", "user22", "user4"] := by decide

end SchemaForge.Naming
