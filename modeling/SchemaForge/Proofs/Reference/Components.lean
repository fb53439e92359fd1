import SchemaForge.Proofs.Reference.Search

/-!
# Components

The search for components comes to its end, and what it then has found are all the components of a
graph: the classes of names that reach each other, in an order in which no component reaches a later
one.

Every step either follows an edge of a name on the way or leaves such a name. So the edges of the
names that are on the way or not yet met, together with these names, bound the number of steps.
-/

namespace SchemaForge.Reference

namespace Search

variable {edges : String → List String} {names : List String} {s : Search} {n : String}

/-! ## The number of steps -/

/-- The number of steps it takes to go back all the way. -/
def backSteps : List Frame → Nat
  | [] => 0
  | f :: outer => f.pending.length + 1 + backSteps outer

@[simp] theorem backSteps_lowered {low : Nat} : ∀ {way : List Frame},
    backSteps (lowered low way) = backSteps way
  | [] => rfl
  | _ :: _ => rfl

/-- The number of steps that a search may still take. -/
def remaining (edges : String → List String) (names : List String) (s : Search) : Nat :=
  steps edges (unmet names s.met) + backSteps s.way

theorem steps_filter_le {p : String → Bool} : ∀ {l : List String},
    steps edges (l.filter p) ≤ steps edges l
  | [] => Nat.le_refl _
  | m :: l => by
    have ih : steps edges (l.filter p) ≤ steps edges l := steps_filter_le
    rw [List.filter_cons, steps]
    split
    · rw [steps]
      omega
    · omega

theorem steps_filter_ne_le : ∀ {l : List String}, n ∈ l →
    steps edges (l.filter (· != n)) + ((edges n).length + 1) ≤ steps edges l
  | [], hn => absurd hn List.not_mem_nil
  | m :: l, hn => by
    by_cases hmn : m = n
    · subst hmn
      -- further copies of the name may go as well
      have hle : steps edges (l.filter (· != m)) ≤ steps edges l := steps_filter_le
      rw [List.filter_cons, if_neg (by simp), steps]
      omega
    · have hle := steps_filter_ne_le ((List.mem_cons.mp hn).resolve_left (Ne.symm hmn))
      rw [List.filter_cons, if_pos (bne_iff_ne.mpr hmn), steps, steps]
      omega

theorem remaining_enter (hn : n ∈ names) (hnew : n ∉ s.met) :
    (s.enter edges n).remaining edges names ≤ s.remaining edges names := by
  have hunmet : unmet names (s.met ++ [n]) = (unmet names s.met).filter (· != n) := by
    rw [unmet_append]
    exact List.filter_congr fun m _ => by simp [bne, beq_eq_decide]
  have hmem : n ∈ unmet names s.met := by simp [unmet, hn, hnew]
  have hle : steps edges ((unmet names s.met).filter (· != n)) + ((edges n).length + 1) ≤
      steps edges (unmet names s.met) := steps_filter_ne_le hmem
  simp only [remaining, Search.enter, hunmet, backSteps]
  omega

theorem remaining_lt_of_way {t : Search} (hmet : t.met = s.met)
    (hway : backSteps t.way < backSteps s.way) :
    t.remaining edges names < s.remaining edges names := by
  unfold remaining
  rw [hmet]
  omega

/-- **A step forgets no name, and leaves fewer steps to take.** -/
theorem step_advances (h : Sound edges names s) (hedges : ∀ n, edges n ⊆ names)
    (hway : s.way ≠ []) : s.met ⊆ (s.step edges names).met ∧
      (s.step edges names).remaining edges names < s.remaining edges names := by
  unfold Search.step
  split
  · exact absurd ‹s.way = []› hway
  rename_i f outer hs
  split
  · rename_i hp
    unfold Search.leave Search.complete
    dsimp only
    split
    all_goals
      refine ⟨List.Subset.refl _, remaining_lt_of_way rfl ?_⟩
      simp [hs, hp, backSteps]
  · rename_i target pending hp
    unfold Search.follow
    split
    · split
      all_goals
        refine ⟨List.Subset.refl _, remaining_lt_of_way rfl ?_⟩
        simp [hs, hp, backSteps]
    · rename_i hmet
      have hnew : target ∉ s.met := fun hmem => hmet (List.contains_iff_mem.mpr hmem)
      have hin : target ∈ names := by
        have hsound := h.way
        rw [hs] at hsound
        obtain ⟨above, below, -, hf, -⟩ := hsound.innermost
        exact hedges f.name (hf.pending_subset (by rw [hp]; exact List.mem_cons_self))
      -- the steps from the new name were counted before, among those from the names not met
      refine ⟨List.subset_append_left _ _, Nat.lt_of_le_of_lt (remaining_enter hin hnew) ?_⟩
      refine remaining_lt_of_way rfl ?_
      simp [hs, hp, backSteps]

/-! ## Whole searches -/

theorem way_eq_nil_of_remaining (h : s.remaining edges names = 0) : s.way = [] := by
  unfold remaining at h
  cases hway : s.way with
  | nil => rfl
  | cons f outer =>
    rw [hway, backSteps] at h
    omega

/-- **A run comes to the end of its way, and keeps the invariant.** -/
theorem run_spec (hedges : ∀ n, edges n ⊆ names) : ∀ (fuel : Nat) {s : Search},
    Sound edges names s → s.remaining edges names ≤ fuel →
    Sound edges names (run edges names fuel s) ∧ (run edges names fuel s).way = [] ∧
      s.met ⊆ (run edges names fuel s).met
  | 0, s, h, hfuel => ⟨h, way_eq_nil_of_remaining (Nat.le_zero.mp hfuel), List.Subset.refl _⟩
  | fuel + 1, s, h, hfuel => by
    unfold run
    split
    · rename_i hway
      exact ⟨h, List.isEmpty_iff.mp hway, List.Subset.refl _⟩
    · rename_i hway
      obtain ⟨hmet, hlt⟩ := step_advances h hedges fun hnil => hway (List.isEmpty_iff.mpr hnil)
      obtain ⟨hs, hend, hsub⟩ := run_spec hedges fuel (h.step hedges) (by omega)
      exact ⟨hs, hend, fun n hn => hsub (hmet hn)⟩

/-- What holds between two visits, when nothing is on the way. -/
structure Resting (edges : String → List String) (names : List String) (s : Search) : Prop where
  sound : Sound edges names s
  way : s.way = []

theorem visit_spec (hedges : ∀ n, edges n ⊆ names) (h : Resting edges names s) {root : String}
    (hroot : root ∈ names) : Resting edges names (visit edges names s root) ∧
      s.met ⊆ (visit edges names s root).met ∧ root ∈ (visit edges names s root).met := by
  unfold visit
  split
  · rename_i hmet
    exact ⟨h, List.Subset.refl _, List.contains_iff_mem.mp hmet⟩
  · rename_i hmet
    have hnew : root ∉ s.met := fun hmem => hmet (List.contains_iff_mem.mpr hmem)
    have hway := h.sound.way.keep (keeps_enter hnew) h.sound.stack_subset
    have hsound : Sound edges names (s.enter edges root) :=
      h.sound.enter hroot hnew hway fun g hg => by simp [h.way] at hg
    have hfuel : (s.enter edges root).remaining edges names ≤ steps edges names := by
      refine Nat.le_trans (remaining_enter hroot hnew) ?_
      unfold remaining
      rw [h.way]
      exact steps_filter_le
    obtain ⟨hs, hend, hsub⟩ := run_spec hedges _ hsound hfuel
    exact ⟨⟨hs, hend⟩, fun n hn => hsub (List.mem_append_left _ hn),
      hsub (List.mem_append_right _ (List.mem_singleton_self _))⟩

theorem foldl_visit_spec (hedges : ∀ n, edges n ⊆ names) : ∀ (roots : List String) {s : Search},
    Resting edges names s → roots ⊆ names →
    Resting edges names (roots.foldl (visit edges names) s) ∧
      s.met ⊆ (roots.foldl (visit edges names) s).met ∧
      roots ⊆ (roots.foldl (visit edges names) s).met
  | [], _, h, _ => ⟨h, List.Subset.refl _, List.nil_subset _⟩
  | root :: roots, s, h, hroots => by
    obtain ⟨hroot, hroots⟩ := List.cons_subset.mp hroots
    obtain ⟨h', hsub, hmem⟩ := visit_spec hedges h hroot
    obtain ⟨h'', hsub', hmem'⟩ := foldl_visit_spec hedges roots h' hroots
    exact ⟨h'', fun n hn => hsub' (hsub hn), List.cons_subset.mpr ⟨hsub' hmem, hmem'⟩⟩

end Search

section Components

variable {edges : String → List String} {names : List String} (hedges : ∀ n, edges n ⊆ names)
include hedges

/-- **The components of a graph: the classes of names that reach each other, dependencies first.** -/
theorem components_grouped : Grouped edges names (components edges names) :=
  (Search.foldl_visit_spec hedges names ⟨Search.sound_empty, rfl⟩
    (List.Subset.refl _)).1.sound.grouped

/-- **Every name is in a component.** -/
theorem mem_components {n : String} : n ∈ (components edges names).flatten ↔ n ∈ names := by
  obtain ⟨⟨hs, hend⟩, -, hmet⟩ := Search.foldl_visit_spec hedges names
    ⟨Search.sound_empty, rfl⟩ (List.Subset.refl _)
  have hway := hs.way
  rw [hend] at hway
  constructor
  · exact fun hn => hs.met_subset ((hs.met_iff n).mpr (Or.inr hn))
  · intro hn
    -- with nothing on the way there is nothing on the stack
    rcases (hs.met_iff n).mp (hmet hn) with hon | hin
    · rw [hway.eq_nil] at hon
      exact absurd hon List.not_mem_nil
    · exact hin

end Components

/-! ## Adjacencies -/

namespace Adjacency

/-- The names that have edges. -/
def names (a : Adjacency) : List String := a.map (·.1)

/-- Edges lead only to names that have edges themselves. -/
def Closed (a : Adjacency) : Prop := ∀ n, a.of n ⊆ a.names

theorem mem_names_of_edge {a : Adjacency} {m n : String} (h : m ∈ a.of n) : n ∈ a.names := by
  unfold Adjacency.of at h
  cases hl : a.lookup n with
  | none => simp [hl] at h
  | some targets =>
    obtain ⟨l₁, l₂, rfl, -⟩ := List.lookup_eq_some_iff.mp hl
    simp [names]

end Adjacency

end SchemaForge.Reference
