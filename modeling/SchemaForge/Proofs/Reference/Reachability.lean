import Mathlib.Data.List.Nodup
import Mathlib.Data.List.Perm.Subperm
import Mathlib.Logic.Relation
import SchemaForge.Reference.Reachability

/-!
# The search finds what can be reached

An `Exploration` of a graph has names that are still pending. Every step explores one of them, any one,
and what it adds are the targets of that name that were not seen before, in any order. In whatever
order this is done, it comes to an end, and then the names seen are exactly those that some start
reaches along edges.

The argument has two sides. Whatever is seen was reached on the way, so nothing too much is found. For
the other side, the names that were seen and are not pending have all their targets seen; when nothing
is pending any more, the names seen are closed under edges. There is an end since every step takes one
name off the pending ones, and what it adds to them was not seen before.

`reachable` explores in one such order, and its fuel lasts until the end.
-/

namespace SchemaForge.Reference

open Relation

/-- One edge of a graph that is given by the targets of each name. -/
def Edge (edges : String → List String) (a b : String) : Prop := b ∈ edges a

/-- A way of zero or more edges. -/
abbrev Reaches (edges : String → List String) : String → String → Prop :=
  ReflTransGen (Edge edges)

/-- A way of one or more edges. -/
abbrev ReachesProperly (edges : String → List String) : String → String → Prop :=
  TransGen (Edge edges)

variable {edges : String → List String}

/-! ## Names that reach each other -/

/-- Two names reach each other. -/
def Mutual (edges : String → List String) (a b : String) : Prop :=
  Reaches edges a b ∧ Reaches edges b a

section Mutual

variable {a b c : String}

theorem Mutual.refl (a : String) : Mutual edges a a := ⟨.refl, .refl⟩

theorem Mutual.symm (h : Mutual edges a b) : Mutual edges b a := ⟨h.2, h.1⟩

theorem Mutual.trans (h : Mutual edges a b) (h' : Mutual edges b c) : Mutual edges a c :=
  ⟨h.1.trans h'.1, h'.2.trans h.2⟩

theorem reaches_iff : Reaches edges a b ↔ a = b ∨ ReachesProperly edges a b :=
  reflTransGen_iff_eq_or_transGen.trans (or_congr eq_comm Iff.rfl)

theorem reachesProperly_iff_exists :
    ReachesProperly edges a b ↔ ∃ s ∈ edges a, Reaches edges s b :=
  TransGen.head'_iff

end Mutual

theorem mem_of_reaches_of_closed {found : List String} (hclosed : ∀ x ∈ found, edges x ⊆ found)
    {a b : String} (ha : a ∈ found) (h : Reaches edges a b) : b ∈ found := by
  induction h with
  | refl => exact ha
  | tail _ hbc ih => exact hclosed _ ih hbc

/-! ## Names not yet seen -/

theorem mem_unseen {b : String} : ∀ {ns seen : List String},
    b ∈ unseen seen ns ↔ b ∈ ns ∧ b ∉ seen
  | [], seen => by simp [unseen]
  | n :: ns, seen => by
    unfold unseen
    by_cases hn : seen.contains n = true
    · have hn' : n ∈ seen := by simpa using hn
      rw [if_pos hn, mem_unseen]
      constructor
      · rintro ⟨hb, hs⟩
        exact ⟨List.mem_cons_of_mem _ hb, hs⟩
      · rintro ⟨hb, hs⟩
        rcases List.mem_cons.mp hb with rfl | hb
        · exact absurd hn' hs
        · exact ⟨hb, hs⟩
    · have hn' : n ∉ seen := by simpa using hn
      simp only [if_neg hn, List.mem_cons, mem_unseen]
      by_cases he : b = n
      · subst he
        simp [hn']
      · simp [he]

theorem nodup_unseen : ∀ (ns seen : List String), (unseen seen ns).Nodup
  | [], _ => List.nodup_nil
  | n :: ns, seen => by
    unfold unseen
    split
    · exact nodup_unseen ns seen
    · refine List.nodup_cons.mpr ⟨fun h => ?_, nodup_unseen ns (n :: seen)⟩
      exact (mem_unseen.mp h).2 List.mem_cons_self

/-- The names of a list that have not been seen. -/
def unmet (bound seen : List String) : List String := bound.filter fun b => !seen.contains b

theorem unmet_append {bound seen new : List String} :
    unmet bound (seen ++ new) = (unmet bound seen).filter fun b => !new.contains b := by
  simp [unmet, List.filter_filter, Bool.and_comm]

/-- What a step adds to the names seen is taken from those not met. -/
theorem length_unmet_append {bound seen new : List String} (hnodup : new.Nodup)
    (hbound : new ⊆ bound) (hnew : ∀ b ∈ new, b ∉ seen) :
    (unmet bound (seen ++ new)).length + new.length ≤ (unmet bound seen).length := by
  have hsplit := (unmet bound seen).length_eq_length_filter_add fun b => new.contains b
  have hsub : new ⊆ (unmet bound seen).filter (fun b => new.contains b) := by
    intro b hb
    simp [unmet, hbound hb, hnew b hb, hb]
  have hle := (List.subperm_of_subset hnodup hsub).length_le
  rw [← unmet_append] at hsplit
  omega

theorem unmet_perm {bound seen seen' : List String} (h : seen.Perm seen') :
    unmet bound seen = unmet bound seen' := by
  refine List.filter_congr fun b _ => ?_
  have hmem : seen.contains b = seen'.contains b := by
    rw [Bool.eq_iff_iff, List.contains_iff_mem, List.contains_iff_mem, h.mem_iff]
  rw [hmem]

/-! ## Explorations -/

/-- A search under way: the names still to be explored, and all names seen so far. -/
structure Exploration where
  pending : List String
  seen : List String

/-- A step: any one of the pending names is explored, and its targets that are new are added in any
order. -/
inductive Explores (edges : String → List String) : Exploration → Exploration → Prop
  | name {e e' : Exploration} (n : String) (chosen : n ∈ e.pending)
      (pending : e'.pending.Perm (e.pending.erase n ++ unseen e.seen (edges n)))
      (seen : e'.seen.Perm (e.seen ++ unseen e.seen (edges n))) : Explores edges e e'

/-- Some exploration from the start finds these names, and then nothing is pending. -/
def Finds (edges : String → List String) (start found : List String) : Prop :=
  ReflTransGen (Explores edges) ⟨start, start⟩ ⟨[], found⟩

namespace Exploration

variable {start bound : List String} {e e' : Exploration}

/-- What holds of an exploration all along. -/
structure Sound (edges : String → List String) (start : List String) (e : Exploration) : Prop where
  reached : ∀ x ∈ e.seen, ∃ s ∈ start, Reaches edges s x
  pending : e.pending ⊆ e.seen
  start : start ⊆ e.seen
  closed : ∀ x ∈ e.seen, x ∉ e.pending → edges x ⊆ e.seen

theorem sound_start (start : List String) : Sound edges start ⟨start, start⟩ where
  reached x hx := ⟨x, hx, .refl⟩
  pending := List.Subset.refl start
  start := List.Subset.refl start
  closed _ hx hpending := absurd hx hpending

/-- **A step keeps the invariant.** -/
theorem Sound.step (h : Sound edges start e) (hstep : Explores edges e e') :
    Sound edges start e' := by
  obtain ⟨n, chosen, hpending, hseen⟩ := hstep
  have hmem : ∀ x, x ∈ e'.seen ↔ x ∈ e.seen ∨ x ∈ unseen e.seen (edges n) := fun x => by
    rw [hseen.mem_iff, List.mem_append]
  have hleft : ∀ x,
      x ∈ e'.pending ↔ x ∈ e.pending.erase n ∨ x ∈ unseen e.seen (edges n) := fun x => by
    rw [hpending.mem_iff, List.mem_append]
  refine ⟨fun x hx => ?_, fun x hx => ?_, fun x hx => ?_, fun x hx hxp y hy => ?_⟩
  · rcases (hmem x).mp hx with hx | hx
    · exact h.reached x hx
    · obtain ⟨s, hs, hsn⟩ := h.reached n (h.pending chosen)
      exact ⟨s, hs, hsn.tail (mem_unseen.mp hx).1⟩
  · refine (hmem x).mpr (((hleft x).mp hx).imp_left fun hx => ?_)
    exact h.pending (List.mem_of_mem_erase hx)
  · exact (hmem x).mpr (Or.inl (h.start hx))
  · by_cases hys : y ∈ e.seen
    · exact (hmem y).mpr (Or.inl hys)
    refine (hmem y).mpr ?_
    rcases (hmem x).mp hx with hx | hx
    · -- the only name that stops being pending is the one that is explored now
      by_cases hxn : x = n
      · subst hxn
        exact Or.inr (mem_unseen.mpr ⟨hy, hys⟩)
      · refine Or.inl (h.closed x hx (fun hxe => hxp ?_) hy)
        exact (hleft x).mpr (Or.inl ((List.mem_erase_of_ne hxn).mpr hxe))
    · exact absurd ((hleft x).mpr (Or.inr hx)) hxp

theorem Sound.run (h : Sound edges start e) (hrun : ReflTransGen (Explores edges) e e') :
    Sound edges start e' := by
  induction hrun with
  | refl => exact h
  | tail _ hstep ih => exact ih.step hstep

/-- **In whatever order a graph is explored, what is found is exactly what some start reaches.** -/
theorem mem_of_finds {found : List String} (h : Finds edges start found) {b : String} :
    b ∈ found ↔ ∃ s ∈ start, Reaches edges s b := by
  have hsound : Sound edges start ⟨[], found⟩ := (sound_start start).run h
  constructor
  · exact hsound.reached b
  · rintro ⟨s, hs, hsb⟩
    refine mem_of_reaches_of_closed (fun x hx => ?_) (hsound.start hs) hsb
    exact hsound.closed x hx List.not_mem_nil

/-! ## Explorations end -/

/-- How many steps an exploration may still take. -/
def left (bound : List String) (e : Exploration) : Nat :=
  e.pending.length + (unmet bound e.seen).length

theorem left_lt (hbound : ∀ n, edges n ⊆ bound) (h : Explores edges e e') :
    e'.left bound < e.left bound := by
  obtain ⟨n, chosen, hpending, hseen⟩ := h
  have hnew : ∀ b ∈ unseen e.seen (edges n), b ∉ e.seen := fun b hb => (mem_unseen.mp hb).2
  have hsub : unseen e.seen (edges n) ⊆ bound := fun b hb => hbound n (mem_unseen.mp hb).1
  have hunmet := length_unmet_append (nodup_unseen (edges n) e.seen) hsub hnew
  have hlength := hpending.length_eq
  rw [List.length_append, List.length_erase_of_mem chosen] at hlength
  have hpos := List.length_pos_of_mem chosen
  unfold left
  rw [unmet_perm hseen]
  omega

/-- **No exploration goes on for ever.** -/
theorem wellFounded_explores (hbound : ∀ n, edges n ⊆ bound) :
    WellFounded fun e' e => Explores edges e e' :=
  Subrelation.wf (left_lt hbound) (measure (left bound)).wf

end Exploration

/-! ## The search -/

/-- With enough fuel the search is an exploration to the end. -/
theorem explores_explore {bound : List String} (hbound : ∀ n, edges n ⊆ bound) :
    ∀ (fuel : Nat) {pending seen : List String},
      Exploration.left bound ⟨pending, seen⟩ ≤ fuel →
      ReflTransGen (Explores edges) ⟨pending, seen⟩ ⟨[], explore edges fuel pending seen⟩
  | 0, pending, seen, hfuel => by
    have hlength : pending.length + (unmet bound seen).length ≤ 0 := hfuel
    have hnil : pending = [] := List.length_eq_zero_iff.mp (by omega)
    subst hnil
    exact .refl
  | _ + 1, [], seen, _ => .refl
  | fuel + 1, n :: pending, seen, hfuel => by
    have hstep : Explores edges ⟨n :: pending, seen⟩
        ⟨pending ++ unseen seen (edges n), seen ++ unseen seen (edges n)⟩ :=
      .name n List.mem_cons_self (by rw [List.erase_cons_head]) (.refl _)
    have hless := Exploration.left_lt hbound hstep
    exact .head hstep (explores_explore hbound fuel (by omega))

theorem finds_reachable {bound : List String} (hbound : ∀ n, edges n ⊆ bound) (start : List String) :
    Finds edges (unseen [] start) (reachable edges bound.length start) := by
  refine explores_explore hbound _ ?_
  have hunmet : (unmet bound (unseen [] start)).length ≤ bound.length := List.length_filter_le _ _
  show (unseen [] start).length + (unmet bound (unseen [] start)).length ≤ _
  omega

/-- **The search finds exactly what some start reaches.** -/
theorem mem_reachable {bound : List String} (hbound : ∀ n, edges n ⊆ bound) {start : List String}
    {b : String} :
    b ∈ reachable edges bound.length start ↔ ∃ s ∈ start, Reaches edges s b := by
  rw [Exploration.mem_of_finds (finds_reachable hbound start)]
  simp only [mem_unseen, List.not_mem_nil, not_false_eq_true, and_true]

end SchemaForge.Reference
