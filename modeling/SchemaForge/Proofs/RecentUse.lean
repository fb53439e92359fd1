import SchemaForge.Proofs.Duplicates
import SchemaForge.Recency

/-!
# What a cache holds

What a cache of some capacity holds can be told from its history alone, without looking at its
entries: the keys that were touched last (`held`), each with the value that it was last set to
(`lastSet`). A history is a list of operations, the latest first; the cache was new before the first.

Setting a key touches it. Asking for its value touches it only if it is held at that time, so that
`touched` and `held` depend on one another: whether a request is a touch depends on the earlier part of
the history.

The entries are `Exact` if they are that, in the order of their last touch. Every operation keeps them
so (`Exact.perform`), in whatever history.
-/

namespace SchemaForge.Recency

/-! ## Operations and histories -/

/-- An operation on a cache. There are two names for asking whether there is a key, and two for asking
how many there are; each pair is one operation. -/
inductive Operation (κ ν : Type) where
  | set (key : κ) (v : ν)
  | get (key : κ)
  | has (key : κ)
  | size
  | clear

/-- What an operation answers. -/
inductive Answer (ν : Type) where
  | nothing
  | value (v : Option ν)
  | truth (b : Bool)
  | count (n : Nat)
deriving DecidableEq

variable {κ ν : Type} [BEq κ]

/-- Performs an operation on a cache. -/
def perform (c : Recency κ ν) : Operation κ ν → Answer ν × Recency κ ν
  | .set key v => (.nothing, c.set key v)
  | .get key => (.value (c.find key).1, (c.find key).2)
  | .has key => (.truth (c.has key), c)
  | .size => (.count c.size, c)
  | .clear => (.nothing, c.clear)

/-- What becomes of a new cache. -/
def after (n : Nat) : List (Operation κ ν) → Recency κ ν
  | [] => empty (.atMost n)
  | op :: earlier => ((after n earlier).perform op).2

/-- The value that a key was last set to. -/
def lastSet (key : κ) : List (Operation κ ν) → Option ν
  | [] => none
  | .set k v :: earlier => if k == key then some v else lastSet key earlier
  | _ :: earlier => lastSet key earlier

/-- The touches of keys since everything was cleared, the latest first. -/
def touched (n : Nat) : List (Operation κ ν) → List κ
  | [] => []
  | .set key _ :: earlier => key :: touched n earlier
  | .get key :: earlier =>
    if ((touched n earlier).eraseDups.take n).contains key then
      key :: touched n earlier
    else touched n earlier
  | .has _ :: earlier => touched n earlier
  | .size :: earlier => touched n earlier
  | .clear :: _ => []

/-- The keys that were touched last, as many as there is room for. -/
def held (n : Nat) (history : List (Operation κ ν)) : List κ :=
  (touched n history).eraseDups.take n

/-- What an operation has to answer after a history. -/
def answer (n : Nat) (history : List (Operation κ ν)) : Operation κ ν → Answer ν
  | .set _ _ => .nothing
  | .get key => .value (if (held n history).contains key then lastSet key history else none)
  | .has key => .truth ((held n history).contains key)
  | .size => .count (held n history).length
  | .clear => .nothing

/-! ## What is held -/

section Held

variable [LawfulBEq κ] {n : Nat} {key : κ} {history : List (Operation κ ν)}

omit [LawfulBEq κ] in
theorem length_held_le : (held n history).length ≤ n :=
  List.length_take_le _ _

/-- What is held after a key is touched that was held. -/
theorem held_touch_of_mem (hn : 1 ≤ n) (hkey : key ∈ held n history) :
    (key :: touched n history).eraseDups.take n =
      key :: (held n history).filter fun k => !(k == key) := by
  obtain ⟨m, rfl⟩ : ∃ m, n = m + 1 := ⟨n - 1, by omega⟩
  rw [List.eraseDups_cons, List.take_succ_cons, eraseDups_filter,
    take_filter_of_mem (nodup_eraseDups _) hkey]
  rfl

/-- What is held after a key is touched that was not held: the oldest key has to go if there is no
room for one more. -/
theorem held_touch_of_notMem (hn : 1 ≤ n) (hkey : key ∉ held n history) :
    (key :: touched n history).eraseDups.take n = key :: (held n history).take (n - 1) := by
  obtain ⟨m, rfl⟩ : ∃ m, n = m + 1 := ⟨n - 1, by omega⟩
  have hfew : key ∉ (touched (m + 1) history).eraseDups.take m := fun hmem =>
    hkey ((List.take_prefix_take_left (Nat.le_succ m)).mem hmem)
  rw [List.eraseDups_cons, List.take_succ_cons, eraseDups_filter, take_filter_of_notMem hfew, held,
    List.take_take]
  congr 2
  omega

end Held

/-! ## Exact entries -/

/-- The entries are what the history says, in the order of their last touch. -/
structure Exact (n : Nat) (history : List (Operation κ ν)) (c : Recency κ ν) : Prop where
  capacity : c.capacity = .atMost n
  keys : c.entries.map Prod.fst = (held n history).reverse
  values : ∀ key v, (key, v) ∈ c.entries → lastSet key history = some v

theorem keys_without (key : κ) (entries : List (κ × ν)) :
    (without key entries).map Prod.fst = (entries.map Prod.fst).filter fun k => !(k == key) := by
  rw [without, List.filter_map]
  rfl

theorem ne_of_mem_without [LawfulBEq κ] {key : κ} {entries : List (κ × ν)} {e : κ × ν}
    (h : e ∈ without key entries) : e.1 ≠ key := by
  have hne := List.of_mem_filter h
  simpa using hne

namespace Exact

variable [LawfulBEq κ] {n : Nat} {history : List (Operation κ ν)} {c : Recency κ ν} {key : κ} {v : ν}

omit [LawfulBEq κ] in
theorem new : Exact n [] (empty (.atMost n) : Recency κ ν) := by
  refine ⟨rfl, ?_, fun key v hmem => absurd hmem List.not_mem_nil⟩
  simp [held, touched, empty]

omit [LawfulBEq κ] in
theorem size_eq (h : Exact n history c) : c.size = (held n history).length := by
  rw [size, ← List.length_map (f := Prod.fst), h.keys, List.length_reverse]

theorem has_eq (h : Exact n history c) (key : κ) : c.has key = (held n history).contains key := by
  have hmem : c.has key = (c.entries.map Prod.fst).contains key := by
    rw [has, List.contains_eq_any_beq, List.any_map]
    exact congrArg _ (funext fun e => BEq.comm)
  rw [hmem, h.keys, List.contains_reverse]

/-- Asking for the value of a key that is held finds what it was last set to and moves its entry to the
end; for another key there is nothing to find. -/
theorem find_cases (h : Exact n history c) (key : κ) :
    (∃ v, key ∈ held n history ∧ lastSet key history = some v ∧
      c.find key = (some v, { c with entries := without key c.entries ++ [(key, v)] })) ∨
    key ∉ held n history ∧ c.find key = (none, c) := by
  have hmem : key ∈ held n history ↔ key ∈ c.entries.map Prod.fst := by
    rw [h.keys, List.mem_reverse]
  rcases hfound : c.entries.find? fun e => e.1 == key with _ | ⟨k, v⟩
  · refine Or.inr ⟨fun hkey => ?_, by rw [Recency.find, hfound]⟩
    obtain ⟨e, he, hek⟩ := List.mem_map.mp (hmem.mp hkey)
    have hne := List.find?_eq_none.mp hfound e he
    simp [hek] at hne
  · have hentry := List.mem_of_find?_eq_some hfound
    obtain rfl : k = key := by simpa using List.find?_some hfound
    exact Or.inl ⟨v, hmem.mpr (List.mem_map_of_mem hentry), h.values k v hentry, by
      rw [Recency.find, hfound]⟩

omit [LawfulBEq κ] in
/-- **A touch.** The key comes last, after entries of others that were there before. -/
theorem touch (h : Exact n history c) {op : Operation κ ν} {rest : List (κ × ν)}
    (hlast : lastSet key (op :: history) = some v)
    (hothers : ∀ k, k ≠ key → lastSet k (op :: history) = lastSet k history)
    (hkeys : held n (op :: history) = key :: (rest.map Prod.fst).reverse)
    (hrest : ∀ e ∈ rest, e ∈ c.entries ∧ e.1 ≠ key) :
    Exact n (op :: history) { c with entries := rest ++ [(key, v)] } := by
  refine ⟨h.capacity, ?_, fun k w hmem => ?_⟩
  · rw [hkeys, List.map_append, List.reverse_cons, List.reverse_reverse]
    rfl
  · rcases List.mem_append.mp hmem with hmem | hmem
    · obtain ⟨hold, hne⟩ := hrest _ hmem
      rw [hothers k hne, h.values k w hold]
    · cases List.mem_singleton.mp hmem
      exact hlast

/-- A touch of a key that is held. -/
theorem touch_held (h : Exact n history c) (hn : 1 ≤ n) {op : Operation κ ν}
    (hkey : key ∈ held n history) (hop : touched n (op :: history) = key :: touched n history)
    (hlast : lastSet key (op :: history) = some v)
    (hothers : ∀ k, k ≠ key → lastSet k (op :: history) = lastSet k history) :
    Exact n (op :: history) { c with entries := without key c.entries ++ [(key, v)] } := by
  refine h.touch hlast hothers ?_ fun e he => ⟨(List.mem_filter.mp he).1, ne_of_mem_without he⟩
  rw [keys_without, h.keys, List.filter_reverse, List.reverse_reverse,
    ← held_touch_of_mem hn hkey, ← hop, held]

/-- **Setting a key.** -/
theorem set (h : Exact n history c) (hn : 1 ≤ n) (key : κ) (v : ν) :
    Exact n (.set key v :: history) (c.set key v) := by
  have hlast : lastSet key (.set key v :: history) = some v := by
    rw [lastSet, if_pos (beq_self_eq_true key)]
  have hothers : ∀ k, k ≠ key → lastSet k (.set key v :: history) = lastSet k history := by
    intro k hk
    have hkey : ¬(key == k) = true := fun hkey => hk (eq_of_beq hkey).symm
    rw [lastSet, if_neg hkey]
  have hop : touched n (.set key v :: history) = key :: touched n history := rfl
  unfold Recency.set
  by_cases hkey : key ∈ held n history
  · rw [if_pos (by rw [h.has_eq]; simpa using hkey)]
    exact h.touch_held hn hkey hop hlast hothers
  rw [if_neg (by rw [h.has_eq]; simpa using hkey)]
  have hnew : ∀ e ∈ c.entries, e.1 ≠ key := by
    intro e he hek
    refine hkey (List.mem_reverse.mp ?_)
    rw [← h.keys, ← hek]
    exact List.mem_map_of_mem he
  have hfull : c.capacity.reachedBy c.size = decide (n ≤ (held n history).length) := by
    rw [h.capacity, h.size_eq]
    rfl
  have hbound : (held n history).length ≤ n := length_held_le
  rw [hfull]
  by_cases hroom : n ≤ (held n history).length
  · rw [if_pos (decide_eq_true hroom)]
    refine h.touch hlast hothers ?_ fun e he =>
      ⟨List.mem_of_mem_tail he, hnew e (List.mem_of_mem_tail he)⟩
    have hlength : n - 1 = (held n history).length - 1 := by omega
    rw [List.map_tail, h.keys, List.tail_reverse, List.reverse_reverse, held, hop,
      held_touch_of_notMem hn hkey, List.dropLast_eq_take, hlength]
  · rw [if_neg (by simpa using hroom)]
    refine h.touch hlast hothers ?_ fun e he => ⟨he, hnew e he⟩
    rw [h.keys, List.reverse_reverse, held, hop, held_touch_of_notMem hn hkey,
      List.take_of_length_le (by omega)]

omit [LawfulBEq κ] in
/-- An operation that touches no key and sets none. -/
theorem idle (h : Exact n history c) {op : Operation κ ν}
    (hop : touched n (op :: history) = touched n history)
    (hlast : ∀ k, lastSet k (op :: history) = lastSet k history) : Exact n (op :: history) c := by
  refine ⟨h.capacity, ?_, fun k w hmem => ?_⟩
  · rw [h.keys, held, held, hop]
  · rw [hlast k, h.values k w hmem]

/-- **Asking for the value of a key.** -/
theorem find (h : Exact n history c) (hn : 1 ≤ n) (key : κ) :
    Exact n (.get key :: history) (c.find key).2 := by
  have hop : touched n (.get key :: history) =
      if (held n history).contains key then key :: touched n history else touched n history := rfl
  rcases h.find_cases key with ⟨v, hkey, hlast, hfind⟩ | ⟨hkey, hfind⟩
  · rw [if_pos (by simpa using hkey)] at hop
    rw [hfind]
    exact h.touch_held hn hkey hop hlast fun k _ => rfl
  · rw [if_neg (by simpa using hkey)] at hop
    rw [hfind]
    exact h.idle hop fun k => rfl

omit [LawfulBEq κ] in
theorem clear (h : Exact n history c) : Exact n (.clear :: history) c.clear := by
  refine ⟨h.capacity, ?_, fun key v hmem => absurd hmem List.not_mem_nil⟩
  simp [held, touched, Recency.clear]

/-- **Every operation keeps the entries exact and answers what it has to.** -/
theorem perform (h : Exact n history c) (hn : 1 ≤ n) (op : Operation κ ν) :
    (c.perform op).1 = answer n history op ∧ Exact n (op :: history) (c.perform op).2 := by
  cases op with
  | set key v => exact ⟨rfl, h.set hn key v⟩
  | get key =>
    refine ⟨?_, h.find hn key⟩
    simp only [Recency.perform, answer]
    rcases h.find_cases key with ⟨v, hkey, hlast, hfind⟩ | ⟨hkey, hfind⟩
    · rw [hfind, if_pos (by simpa using hkey), hlast]
    · rw [hfind, if_neg (by simpa using hkey)]
  | has key => exact ⟨congrArg Answer.truth (h.has_eq key), h.idle rfl fun k => rfl⟩
  | size => exact ⟨congrArg Answer.count h.size_eq, h.idle rfl fun k => rfl⟩
  | clear => exact ⟨rfl, h.clear⟩

/-- **So they are exact after every history.** -/
theorem after (hn : 1 ≤ n) : ∀ history : List (Operation κ ν), Exact n history (after n history)
  | [] => .new
  | op :: earlier => ((Exact.after hn earlier).perform hn op).2

end Exact

theorem capacityOf_int {n : Nat} (hn : 1 ≤ n) : capacityOf (.int n) = .ok (.atMost n) := by
  have hless : (Quantity.ofInt n).less (.ofInt 1) = false := by
    simp only [Quantity.ofInt, Quantity.less, decide_eq_false_iff_not]
    omega
  have hreach : Limit.reaching (.ofInt n) = .atMost n := by
    simp [Limit.reaching, Quantity.ofInt]
  have hmeasure : (Value.int n).measure = .ok (.ofInt n) := rfl
  simp [capacityOf, hmeasure, hless, hreach, bind, Except.bind, pure, Except.pure]

/--
**A cache gives up what was touched longest ago, and nothing else.** A capacity of at least one makes a
cache which, after any history, holds exactly the keys that were touched last since it was cleared, as
many different ones as it has room for; they stand in the order of these touches, the oldest first. Each
has the value that it was last set to. Whatever is asked next is answered accordingly, so that a key
that is not held has no value. There are never more keys than the capacity.
-/
theorem least_recently_used [LawfulBEq κ] {n : Nat} (hn : 1 ≤ n) (history : List (Operation κ ν)) :
    capacityOf (.int n) = .ok (.atMost n) ∧
      (after n history).entries.map Prod.fst = (held n history).reverse ∧
      (∀ key v, (key, v) ∈ (after n history).entries → lastSet key history = some v) ∧
      (∀ op, ((after n history).perform op).1 = answer n history op) ∧
      (after n history).size ≤ n := by
  have hexact : Exact n history (after n history) := .after hn history
  have hsize : (after n history).size ≤ n := by
    rw [hexact.size_eq]
    exact length_held_le
  exact ⟨capacityOf_int hn, hexact.keys, hexact.values, fun op => (hexact.perform hn op).1, hsize⟩

/-- With room for two keys, a key that was asked for outlives one that was set after it. -/
theorem least_recently_used_asked :
    ∃ history : List (Operation String Nat),
      history = [.set "c" 3, .get "a", .has "b", .set "b" 2, .set "a" 1] ∧
      (after 2 history).entries.map Prod.fst = ["a", "c"] ∧
      ((after 2 history).perform (.get "a")).1 = .value (some 1) ∧
      ((after 2 history).perform (.get "b")).1 = .value none := by
  obtain ⟨-, hkeys, -, hanswers, -⟩ := least_recently_used (n := 2) (by decide)
    ([.set "c" 3, .get "a", .has "b", .set "b" 2, .set "a" 1] : List (Operation String Nat))
  exact ⟨_, rfl, hkeys.trans (by decide +kernel), (hanswers _).trans (by decide +kernel),
    (hanswers _).trans (by decide +kernel)⟩

end SchemaForge.Recency
