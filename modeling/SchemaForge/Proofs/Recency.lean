import Mathlib.Data.List.Forall2
import SchemaForge.Recency

/-!
# What stays true of the entries of a cache

Finding a key only moves its entry, and setting one adds an entry and may give up another. So what
holds of all entries still does afterwards, as long as it holds of those that are set. The same goes
for what two caches have in common, if the same keys are found and set in both.
-/

namespace SchemaForge.Recency

variable {κ ν : Type} [BEq κ] {c : Recency κ ν} {Q : κ → ν → Prop} {key : κ} {v : ν}

/-- All entries of a cache have a property. -/
def All (c : Recency κ ν) (Q : κ → ν → Prop) : Prop := ∀ e ∈ c.entries, Q e.1 e.2

omit [BEq κ] in
theorem all_empty (capacity : Limit) : (empty capacity : Recency κ ν).All Q :=
  fun _ he => absurd he List.not_mem_nil

theorem mem_of_mem_without {entries : List (κ × ν)} {e : κ × ν} (h : e ∈ without key entries) :
    e ∈ entries :=
  (List.mem_filter.mp h).1

/-- **What is found is an entry, and the other entries stay.** -/
theorem All.find [LawfulBEq κ] (h : c.All Q) {found : Option ν} {c' : Recency κ ν}
    (hfind : c.find key = (found, c')) : c'.All Q ∧ ∀ v, found = some v → Q key v := by
  unfold Recency.find at hfind
  split at hfind
  · rename_i k w hentry
    cases hfind
    have hmem := List.mem_of_find?_eq_some hentry
    obtain rfl : k = key := by simpa using List.find?_some hentry
    refine ⟨fun e he => ?_, fun v hv => ?_⟩
    · rcases List.mem_append.mp he with he | he
      · exact h e (mem_of_mem_without he)
      · rw [List.mem_singleton.mp he]
        exact h _ hmem
    · cases hv
      exact h _ hmem
  · cases hfind
    exact ⟨h, fun v hv => by cases hv⟩

/-- **After a key was set, the entries are old ones or the new one.** -/
theorem All.set (h : c.All Q) (hv : Q key v) : (c.set key v).All Q := by
  have hadd : ∀ entries : List (κ × ν), (∀ e ∈ entries, Q e.1 e.2) →
      ∀ e ∈ entries ++ [(key, v)], Q e.1 e.2 := by
    intro entries hentries e he
    rcases List.mem_append.mp he with he | he
    · exact hentries e he
    · rw [List.mem_singleton.mp he]
      exact hv
  unfold Recency.set
  split
  · exact hadd _ fun e he => h e (mem_of_mem_without he)
  split
  · exact hadd _ fun e he => h e (List.mem_of_mem_tail he)
  · exact hadd _ h

/-! ## Two caches -/

/-- Two caches with the same keys in the same order, and with values in a relation that may depend
on the key. -/
structure Linked (R : κ → ν → ν → Prop) (c c' : Recency κ ν) : Prop where
  capacity : c.capacity = c'.capacity
  entries : List.Forall₂ (fun e e' => e.1 = e'.1 ∧ R e.1 e.2 e'.2) c.entries c'.entries

variable {R : κ → ν → ν → Prop} {c' : Recency κ ν} {v' : ν}

omit [BEq κ] in
theorem Linked.refl (hR : ∀ k v, R k v v) (c : Recency κ ν) : Linked R c c := by
  refine ⟨rfl, ?_⟩
  rw [List.forall₂_same]
  exact fun e _ => ⟨rfl, hR _ _⟩

omit [BEq κ] in
theorem Linked.mono {R' : κ → ν → ν → Prop} (h : Linked R c c')
    (hR : ∀ k v v', R k v v' → R' k v v') : Linked R' c c' :=
  ⟨h.capacity, h.entries.imp fun _ _ he => ⟨he.1, hR _ _ _ he.2⟩⟩

theorem forall₂_without {entries entries' : List (κ × ν)}
    (h : List.Forall₂ (fun e e' => e.1 = e'.1 ∧ R e.1 e.2 e'.2) entries entries') (key : κ) :
    List.Forall₂ (fun e e' => e.1 = e'.1 ∧ R e.1 e.2 e'.2) (without key entries)
      (without key entries') := by
  induction h with
  | nil => exact .nil
  | @cons e e' entries entries' he _ ih =>
    unfold without at ih ⊢
    rw [List.filter_cons, List.filter_cons, ← he.1]
    split
    · exact .cons he ih
    · exact ih

/-- **The same keys are found in both, with values in the relation.** -/
theorem Linked.find [LawfulBEq κ] (h : Linked R c c') (key : κ) :
    (∃ v v' d d', c.find key = (some v, d) ∧ c'.find key = (some v', d') ∧ R key v v' ∧
      Linked R d d') ∨
    c.find key = (none, c) ∧ c'.find key = (none, c') := by
  have hfound : (∃ v v', c.entries.find? (·.1 == key) = some (key, v) ∧
        c'.entries.find? (·.1 == key) = some (key, v') ∧ R key v v') ∨
      c.entries.find? (·.1 == key) = none ∧ c'.entries.find? (·.1 == key) = none := by
    have hentries := h.entries
    generalize c.entries = entries at hentries
    generalize c'.entries = entries' at hentries
    induction hentries with
    | nil => exact Or.inr ⟨rfl, rfl⟩
    | @cons e e' entries entries' he _ ih =>
      obtain ⟨k, v⟩ := e
      obtain ⟨k', v'⟩ := e'
      obtain ⟨rfl, hR⟩ := he
      rw [List.find?_cons, List.find?_cons]
      cases hk : k == key with
      | true =>
        obtain rfl : k = key := eq_of_beq hk
        exact Or.inl ⟨v, v', by simp, by simp, hR⟩
      | false => exact ih
  rcases hfound with ⟨v, v', hv, hv', hR⟩ | ⟨hn, hn'⟩
  · left
    simp only [Recency.find, hv, hv', Prod.mk.injEq, Option.some.injEq]
    refine ⟨v, v', _, _, ⟨rfl, rfl⟩, ⟨rfl, rfl⟩, hR, h.capacity, ?_⟩
    exact List.rel_append (forall₂_without h.entries key) (.cons ⟨rfl, hR⟩ .nil)
  · right
    simp only [Recency.find, hn, hn', and_self]

theorem Linked.has (h : Linked R c c') (key : κ) : c.has key = c'.has key := by
  have hany : ∀ {entries entries' : List (κ × ν)},
      List.Forall₂ (fun e e' => e.1 = e'.1 ∧ R e.1 e.2 e'.2) entries entries' →
      (entries.any fun e => e.1 == key) = entries'.any fun e => e.1 == key := by
    intro entries entries' hentries
    induction hentries with
    | nil => rfl
    | cons he _ ih => rw [List.any_cons, List.any_cons, ih, he.1]
  exact hany h.entries

/-- **Setting a key in both keeps them linked.** -/
theorem Linked.set (h : Linked R c c') (hR : R key v v') :
    Linked R (c.set key v) (c'.set key v') := by
  have hsize : c.size = c'.size := h.entries.length_eq
  have hadd : ∀ {entries entries' : List (κ × ν)},
      List.Forall₂ (fun e e' => e.1 = e'.1 ∧ R e.1 e.2 e'.2) entries entries' →
      Linked R ⟨c.capacity, entries ++ [(key, v)]⟩ ⟨c'.capacity, entries' ++ [(key, v')]⟩ :=
    fun hentries => ⟨h.capacity, List.rel_append hentries (.cons ⟨rfl, hR⟩ .nil)⟩
  unfold Recency.set
  rw [← h.has key, ← h.capacity, ← hsize]
  rw [← h.capacity] at hadd
  by_cases hfound : c.has key = true
  · rw [if_pos hfound, if_pos hfound]
    exact hadd (forall₂_without h.entries key)
  rw [if_neg hfound, if_neg hfound]
  by_cases hfull : c.capacity.reachedBy c.size = true
  · rw [if_pos hfull, if_pos hfull]
    refine hadd ?_
    have hentries := h.entries
    generalize c.entries = entries at hentries
    generalize c'.entries = entries' at hentries
    cases hentries with
    | nil => exact .nil
    | cons _ hrest => exact hrest
  · rw [if_neg hfull, if_neg hfull]
    exact hadd h.entries

end SchemaForge.Recency
