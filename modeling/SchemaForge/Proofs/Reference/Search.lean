import SchemaForge.Proofs.Reference.Reachability
import SchemaForge.Reference.Components

/-!
# The search for components

What holds while components are searched for, and what a step does to it.

The stack falls into parts, one for each name on the way: the name itself, and above it those names
that were met later and belong to its component. The low point of a name on the way is the place of
a name further down on the stack that it reaches, and no edge from its part leads further down than
to the low point. So if the low point is the place of the name itself, no edge leads out of its part
to the rest of the stack: the part is a component. And if not, the name reaches something further
down, from where the next name on the way is reached: its part belongs to the part of that name.
-/

namespace SchemaForge.Reference

open Relation

variable {edges : String → List String} {names : List String}

/-! ## Components found so far -/

/-- What holds of the components that are complete. -/
structure Grouped (edges : String → List String) (names : List String)
    (found : List (List String)) : Prop where
  /-- Every component holds the names that some name and itself reach each other, in order. -/
  component : ∀ c ∈ found, c.Sublist names ∧
    ∃ r ∈ names, ∀ n, n ∈ c ↔ n ∈ names ∧ Mutual edges r n
  /-- No edge leads out of the components. -/
  closed : ∀ x ∈ found.flatten, edges x ⊆ found.flatten
  /-- No component reaches a later one. -/
  ordered : found.Pairwise fun c d => ∀ x ∈ c, ∀ y ∈ d, ¬ Reaches edges x y

theorem grouped_nil : Grouped edges names [] where
  component := fun _ h => absurd h List.not_mem_nil
  closed := fun _ h => absurd h List.not_mem_nil
  ordered := .nil

theorem mem_flatten_append_filter {found : List (List String)} {members : List String}
    (hnames : members ⊆ names) {n : String} :
    n ∈ (found ++ [names.filter members.contains]).flatten ↔ n ∈ found.flatten ∨ n ∈ members := by
  rw [List.flatten_append, List.mem_append, List.flatten_singleton, List.mem_filter,
    List.contains_iff_mem]
  exact or_congr Iff.rfl ⟨fun h => h.2, fun h => ⟨hnames h, h⟩⟩

/-- **Names that reach each other are a component if their edges lead to themselves and to complete
components only.** -/
theorem Grouped.append {found : List (List String)} (h : Grouped edges names found)
    {members : List String} {r : String} (hnames : members ⊆ names) (hr : r ∈ members)
    (hmutual : ∀ n ∈ members, Mutual edges r n) (hnew : ∀ n ∈ members, n ∉ found.flatten)
    (hedges : ∀ x ∈ members, ∀ y ∈ edges x, y ∈ found.flatten ∨ y ∈ members) :
    Grouped edges names (found ++ [names.filter members.contains]) := by
  have hclosed : ∀ x ∈ (found ++ [names.filter members.contains]).flatten,
      edges x ⊆ (found ++ [names.filter members.contains]).flatten := by
    intro x hx y hy
    rw [mem_flatten_append_filter hnames] at hx ⊢
    rcases hx with hx | hx
    · exact Or.inl (h.closed x hx hy)
    · exact hedges x hx y hy
  refine ⟨?_, hclosed, ?_⟩
  · intro c hc
    rcases List.mem_append.mp hc with hc | hc
    · exact h.component c hc
    · rw [List.mem_singleton.mp hc]
      refine ⟨List.filter_sublist, r, hnames hr, fun n => ?_⟩
      rw [List.mem_filter, List.contains_iff_mem]
      refine and_congr_right fun _ => ⟨hmutual n, fun hrn => ?_⟩
      -- whatever is reached from a member is a member or complete, and what is complete does not
      -- lead back
      have hn := mem_of_reaches_of_closed hclosed
        ((mem_flatten_append_filter hnames).mpr (Or.inr hr)) hrn.1
      rcases (mem_flatten_append_filter hnames).mp hn with hn | hn
      · exact absurd (mem_of_reaches_of_closed h.closed hn hrn.2) (hnew r hr)
      · exact hn
  · refine List.pairwise_append.mpr ⟨h.ordered, List.pairwise_singleton _ _, ?_⟩
    intro c hc d hd x hx y hy hxy
    rw [List.mem_singleton.mp hd] at hy
    have hy : y ∈ members := List.contains_iff_mem.mp (List.mem_filter.mp hy).2
    exact hnew y hy (mem_of_reaches_of_closed h.closed (List.mem_flatten_of_mem hc hx) hxy)

/-! ## Names on the way -/

/-- A target is settled for a low point: it was met and, if it is still on the stack, it does not
stand before the low point. -/
def Settled (met stack : List String) (low : Nat) (n : String) : Prop :=
  n ∈ met ∧ (n ∈ stack → low ≤ met.idxOf n)

/-- What holds of a name on the way, between those above it on the stack that belong to it and those
below. -/
structure Frame.Sound (edges : String → List String) (met stack : List String) (f : Frame)
    (outer : List Frame) (above below : List String) : Prop where
  /-- What stands above the name belongs to its component. -/
  above_mutual : ∀ n ∈ above, Mutual edges f.name n
  reached : ∀ g ∈ outer.head?, Reaches edges g.name f.name
  pending_subset : f.pending ⊆ edges f.name
  low_le : f.low ≤ met.idxOf f.name
  low_reached : ∃ n ∈ f.name :: below, met.idxOf n = f.low ∧ Reaches edges f.name n
  /-- The targets of the name are settled as far as they were followed. -/
  followed : ∀ n ∈ edges f.name, n ∈ f.pending ∨ Settled met stack f.low n
  above_followed : ∀ m ∈ above, ∀ n ∈ edges m, Settled met stack f.low n

/-- The way goes through parts of the stack, one for each name on it. -/
inductive WaySound (edges : String → List String) (met stack : List String) :
    List Frame → List String → Prop where
  | nil : WaySound edges met stack [] []
  | cons {f : Frame} {outer : List Frame} {above below : List String}
      (innermost : f.Sound edges met stack outer above below)
      (rest : WaySound edges met stack outer below) :
      WaySound edges met stack (f :: outer) (above ++ f.name :: below)

/-- Names that were met later stand first. -/
def Descending (met l : List String) : Prop := l.Pairwise fun m n => met.idxOf n < met.idxOf m

variable {met stack : List String} {f g : Frame} {outer : List Frame} {above below : List String}
  {n : String} {low low' : Nat}

theorem Settled.mono (h : Settled met stack low n) (hle : low' ≤ low) :
    Settled met stack low' n :=
  ⟨h.1, fun hn => Nat.le_trans hle (h.2 hn)⟩

theorem Descending.lt_of_mem_below (h : Descending met (above ++ n :: below)) {m : String}
    (hm : m ∈ below) : met.idxOf m < met.idxOf n :=
  (List.pairwise_cons.mp (List.pairwise_append.mp h).2.1).1 m hm

theorem Descending.lt_of_mem_above (h : Descending met (above ++ n :: below)) {m : String}
    (hm : m ∈ above) : met.idxOf n < met.idxOf m :=
  (List.pairwise_append.mp h).2.2 m hm n List.mem_cons_self

theorem Descending.rest (h : Descending met (above ++ n :: below)) : Descending met below :=
  (List.pairwise_cons.mp (List.pairwise_append.mp h).2.1).2

/-- What stands before a name in the order of meeting stands below it on the stack. -/
theorem Descending.mem_below (h : Descending met (above ++ n :: below)) {m : String}
    (hm : m ∈ above ++ n :: below) (hlt : met.idxOf m < met.idxOf n) : m ∈ below := by
  rcases List.mem_append.mp hm with hm | hm
  · have := h.lt_of_mem_above hm
    omega
  · rcases List.mem_cons.mp hm with rfl | hm
    · omega
    · exact hm

/-- All names on the stack reach the innermost name on the way. -/
theorem WaySound.reaches_head {way : List Frame} {part : List String}
    (h : WaySound edges met stack way part) :
    ∀ n ∈ part, ∀ f ∈ way.head?, Reaches edges n f.name := by
  induction h with
  | nil => exact fun _ hn => absurd hn List.not_mem_nil
  | @cons f outer above below hf hrest ih =>
    intro n hn f' hf'
    cases hf'
    rcases List.mem_append.mp hn with hn | hn
    · exact (hf.above_mutual n hn).2
    · rcases List.mem_cons.mp hn with rfl | hn
      · exact .refl
      · cases hrest with
        | nil => exact absurd hn List.not_mem_nil
        | @cons g _ _ _ _ _ => exact (ih n hn g rfl).trans (hf.reached g rfl)

/-! ## Changes of frames -/

namespace Frame.Sound

/-- A target that is settled needs not be followed any more. -/
theorem follow {target : String} {pending : List String}
    (h : f.Sound edges met stack outer above below) (hp : f.pending = target :: pending)
    (ht : Settled met stack f.low target) :
    Frame.Sound edges met stack { f with pending := pending } outer above below :=
  { h with
    pending_subset := fun n hn => h.pending_subset (hp ▸ List.mem_cons_of_mem _ hn)
    followed := by
      intro n hn
      rcases h.followed n hn with hmem | hset
      · rw [hp] at hmem
        rcases List.mem_cons.mp hmem with rfl | hmem
        · exact Or.inr ht
        · exact Or.inl hmem
      · exact Or.inr hset }

/-- The low point may be lowered to the place of a name that is reached, as long as that name stands
below. -/
theorem lower (h : f.Sound edges met stack outer above below) (hreach : Reaches edges f.name n)
    (hbelow : met.idxOf n < f.low → n ∈ below) :
    Frame.Sound edges met stack { f with low := min f.low (met.idxOf n) } outer above below :=
  { h with
    low_le := Nat.le_trans (Nat.min_le_left _ _) h.low_le
    low_reached := by
      by_cases hlt : met.idxOf n < f.low
      · exact ⟨n, List.mem_cons_of_mem _ (hbelow hlt), by dsimp only; omega, hreach⟩
      · obtain ⟨m, hm, hplace, hmreach⟩ := h.low_reached
        exact ⟨m, hm, by dsimp only; omega, hmreach⟩
    followed := fun m hm => (h.followed m hm).imp_right fun hs => hs.mono (Nat.min_le_left _ _)
    above_followed := fun m hm k hk => (h.above_followed m hm k hk).mono (Nat.min_le_left _ _) }

/-- A part of the stack that belongs to the component of a name can be added to those above it. -/
theorem absorb (h : f.Sound edges met stack outer above below) {part : List String}
    (hmutual : ∀ m ∈ part, Mutual edges f.name m)
    (hfollowed : ∀ m ∈ part, ∀ n ∈ edges m, Settled met stack f.low n) :
    f.Sound edges met stack outer (part ++ above) below :=
  { h with
    above_mutual := fun m hm => (List.mem_append.mp hm).elim (hmutual m) (h.above_mutual m)
    above_followed := fun m hm =>
      (List.mem_append.mp hm).elim (hfollowed m) (h.above_followed m) }

theorem part_mutual (h : f.Sound edges met stack outer above below) :
    ∀ m ∈ above ++ [f.name], Mutual edges f.name m := by
  intro m hm
  rcases List.mem_append.mp hm with hm | hm
  · exact h.above_mutual m hm
  · rw [List.mem_singleton.mp hm]
    exact Mutual.refl f.name

/-- When all targets of a name were followed, those of its whole part of the stack are settled. -/
theorem part_settled (h : f.Sound edges met stack outer above below) (hp : f.pending = []) :
    ∀ m ∈ above ++ [f.name], ∀ n ∈ edges m, Settled met stack f.low n := by
  intro m hm n hn
  rcases List.mem_append.mp hm with hm | hm
  · exact h.above_followed m hm n hn
  · rw [List.mem_singleton.mp hm] at hn
    refine (h.followed n hn).resolve_left fun hpending => ?_
    rw [hp] at hpending
    exact absurd hpending List.not_mem_nil

end Frame.Sound

/-! ## Changes of the way -/

/-- What was met keeps its place, and nothing that was met comes back to the stack. -/
structure Keeps (met stack met' stack' : List String) : Prop where
  met_subset : met ⊆ met'
  idxOf_eq : ∀ n ∈ met, met'.idxOf n = met.idxOf n
  stack_subset : ∀ n ∈ met, n ∈ stack' → n ∈ stack

theorem keeps_enter (hnew : n ∉ met) : Keeps met stack (met ++ [n]) (n :: stack) where
  met_subset := List.subset_append_left _ _
  idxOf_eq := fun _ hm => List.idxOf_append_of_mem hm
  stack_subset := by
    intro m hm hms
    rcases List.mem_cons.mp hms with rfl | hms
    · exact absurd hm hnew
    · exact hms

theorem keeps_complete : Keeps met (above ++ n :: below) met below where
  met_subset := List.Subset.refl _
  idxOf_eq := fun _ _ => rfl
  stack_subset := fun _ _ hm => List.mem_append_right _ (List.mem_cons_of_mem _ hm)

section Keeps

variable {met' stack' : List String} (hk : Keeps met stack met' stack')
include hk

theorem Settled.keep (h : Settled met stack low n) : Settled met' stack' low n := by
  refine ⟨hk.met_subset h.1, fun hn => ?_⟩
  rw [hk.idxOf_eq n h.1]
  exact h.2 (hk.stack_subset n h.1 hn)

theorem Frame.Sound.keep (h : f.Sound edges met stack outer above below)
    (hmet : f.name :: below ⊆ met) : f.Sound edges met' stack' outer above below :=
  { h with
    low_le := by
      rw [hk.idxOf_eq _ (hmet List.mem_cons_self)]
      exact h.low_le
    low_reached := by
      obtain ⟨m, hm, hplace, hreach⟩ := h.low_reached
      exact ⟨m, hm, by rw [hk.idxOf_eq m (hmet hm), hplace], hreach⟩
    followed := fun m hm => (h.followed m hm).imp_right fun hs => hs.keep hk
    above_followed := fun m hm k hm' => (h.above_followed m hm k hm').keep hk }

theorem WaySound.keep {way : List Frame} {part : List String}
    (h : WaySound edges met stack way part) (hmet : part ⊆ met) :
    WaySound edges met' stack' way part := by
  induction h with
  | nil => exact .nil
  | @cons f outer above below hf hrest ih =>
    have hbelow : f.name :: below ⊆ met := fun m hm => hmet (List.mem_append_right _ hm)
    exact .cons (hf.keep hk hbelow) (ih fun m hm => hbelow (List.mem_cons_of_mem _ hm))

end Keeps

theorem WaySound.eq_nil {part : List String} (h : WaySound edges met stack [] part) : part = [] := by
  cases h
  rfl

theorem WaySound.innermost {part : List String}
    (h : WaySound edges met stack (f :: outer) part) :
    ∃ above below, part = above ++ f.name :: below ∧
      f.Sound edges met stack outer above below ∧ WaySound edges met stack outer below := by
  cases h with
  | cons hf hrest => exact ⟨_, _, rfl, hf, hrest⟩

theorem Descending.enter (h : Descending met stack) (hmet : stack ⊆ met) (hnew : n ∉ met) :
    Descending (met ++ [n]) (n :: stack) := by
  have hk : Keeps met stack (met ++ [n]) (n :: stack) := keeps_enter hnew
  refine List.pairwise_cons.mpr ⟨fun m hm => ?_, ?_⟩
  · rw [hk.idxOf_eq m (hmet hm), List.idxOf_append_of_notMem hnew]
    exact Nat.lt_add_right _ (List.idxOf_lt_length_of_mem (hmet hm))
  · refine h.imp_of_mem fun {m k} hm hk' hlt => ?_
    rwa [hk.idxOf_eq m (hmet hm), hk.idxOf_eq k (hmet hk')]

/-- A name that is met for the first time is a part of the stack of its own. -/
theorem WaySound.enter {way : List Frame} (h : WaySound edges (met ++ [n]) (n :: stack) way stack)
    (hnew : n ∉ met) (hreach : ∀ g ∈ way.head?, Reaches edges g.name n) :
    WaySound edges (met ++ [n]) (n :: stack) (⟨n, met.length, edges n⟩ :: way) (n :: stack) := by
  have hplace : (met ++ [n]).idxOf n = met.length := by
    rw [List.idxOf_append_of_notMem hnew, List.idxOf_cons_self, Nat.add_zero]
  have hf : Frame.Sound edges (met ++ [n]) (n :: stack) ⟨n, met.length, edges n⟩ way [] stack :=
    { above_mutual := fun _ hm => absurd hm List.not_mem_nil
      reached := hreach
      pending_subset := List.Subset.refl _
      low_le := Nat.le_of_eq hplace.symm
      low_reached := ⟨n, List.mem_cons_self, hplace, .refl⟩
      followed := fun _ hm => Or.inl hm
      above_followed := fun _ hm => absurd hm List.not_mem_nil }
  exact .cons hf h

section Leave

variable (hf : f.Sound edges met stack outer above below)
  (hrest : WaySound edges met stack outer below)
  (hdesc : Descending met (above ++ f.name :: below))
include hf hrest hdesc

/-- The next name on the way reaches whatever the low point of the innermost one stands for. -/
theorem WaySound.lowered : WaySound edges met stack (lowered f.low outer) below := by
  cases hrest with
  | nil => exact .nil
  | @cons g outer above' below' hg hrest =>
    obtain ⟨n, hn, hplace, hreach⟩ := hf.low_reached
    have hgn : Reaches edges g.name n := (hf.reached g rfl).trans hreach
    rw [← hplace]
    refine WaySound.cons (hg.lower hgn fun hlt => ?_) hrest
    -- a place before `g` belongs to a name below `g`
    have hlt : met.idxOf n < met.idxOf g.name := Nat.lt_of_lt_of_le hlt hg.low_le
    rcases List.mem_cons.mp hn with rfl | hn
    · have hgf := hdesc.lt_of_mem_below (List.mem_append_right above' List.mem_cons_self)
      omega
    · exact hdesc.rest.mem_below hn hlt

/-- **A name that reaches something below it belongs to the component of the next name on the
way.** -/
theorem WaySound.retreat (hp : f.pending = []) (hlow : f.low ≠ met.idxOf f.name) :
    WaySound edges met stack (Reference.lowered f.low outer) (above ++ f.name :: below) := by
  obtain ⟨n, hn, hplace, hreach⟩ := hf.low_reached
  have hn : n ∈ below := by
    rcases List.mem_cons.mp hn with rfl | hn
    · exact absurd hplace.symm hlow
    · exact hn
  have hlowered := WaySound.lowered hf hrest hdesc
  cases outer with
  | nil =>
    cases hrest
    exact absurd hn List.not_mem_nil
  | cons g outer =>
    -- everything below `f` leads to `g`, also what the low point stands for
    have hgf : Mutual edges g.name f.name :=
      ⟨hf.reached g rfl, hreach.trans (hrest.reaches_head n hn g rfl)⟩
    obtain ⟨above', below', hpart, hg, hrest'⟩ := hlowered.innermost
    have hsplit : above ++ f.name :: below = ((above ++ [f.name]) ++ above') ++ g.name :: below' := by
      simp [hpart]
    rw [hsplit]
    refine WaySound.cons (hg.absorb (fun m hm => hgf.trans (hf.part_mutual m hm)) ?_) hrest'
    exact fun m hm k hk => (hf.part_settled hp m hm k hk).mono (Nat.min_le_right _ _)

end Leave

/-! ## Steps -/

namespace Search

/-- What holds of a search all along. -/
structure Sound (edges : String → List String) (names : List String) (s : Search) : Prop where
  met_subset : s.met ⊆ names
  /-- What was met is on the stack or in a complete component. -/
  met_iff : ∀ n, n ∈ s.met ↔ n ∈ s.stack ∨ n ∈ s.components.flatten
  stack_new : ∀ n ∈ s.stack, n ∉ s.components.flatten
  descending : Descending s.met s.stack
  way : WaySound edges s.met s.stack s.way s.stack
  grouped : Grouped edges names s.components

variable {s : Search}

theorem sound_empty : Sound edges names {} where
  met_subset := List.nil_subset _
  met_iff := fun _ => by simp
  stack_new := fun _ hn => absurd hn List.not_mem_nil
  descending := .nil
  way := .nil
  grouped := grouped_nil

theorem complete_eq {first : String} (hstack : s.stack = above ++ first :: below)
    (hfirst : first ∉ above) : s.complete names first =
      { s with
        stack := below
        components := s.components ++ [names.filter (above ++ [first]).contains] } := by
  have hne : ∀ m ∈ above, (m != first) = true := fun m hm =>
    bne_iff_ne.mpr fun heq => hfirst (heq ▸ hm)
  unfold Search.complete
  rw [hstack, List.takeWhile_append_of_pos hne, List.dropWhile_append_of_pos hne]
  simp

namespace Sound

theorem stack_subset (h : Sound edges names s) : s.stack ⊆ s.met :=
  fun n hn => (h.met_iff n).mpr (Or.inl hn)

/-- **Meeting a name keeps the invariant**, whatever becomes of the way so far. -/
theorem enter {way : List Frame} (h : Sound edges names s) (hn : n ∈ names) (hnew : n ∉ s.met)
    (hway : WaySound edges (s.met ++ [n]) (n :: s.stack) way s.stack)
    (hreach : ∀ g ∈ way.head?, Reaches edges g.name n) :
    Sound edges names (Search.enter edges { s with way := way } n) where
  met_subset := by
    intro m hm
    rcases List.mem_append.mp hm with hm | hm
    · exact h.met_subset hm
    · rwa [List.mem_singleton.mp hm]
  met_iff := by
    intro m
    show m ∈ s.met ++ [n] ↔ m ∈ n :: s.stack ∨ m ∈ s.components.flatten
    rw [List.mem_append, List.mem_singleton, List.mem_cons, h.met_iff]
    tauto
  stack_new := by
    intro m hm hc
    have hmet := (h.met_iff m).mpr (Or.inr hc)
    rcases List.mem_cons.mp hm with rfl | hm
    · exact hnew hmet
    · exact h.stack_new m hm hc
  descending := h.descending.enter h.stack_subset hnew
  way := WaySound.enter hway hnew hreach
  grouped := h.grouped

/-- A change of the way alone. -/
theorem withWay {way : List Frame} (h : Sound edges names s)
    (hway : WaySound edges s.met s.stack way s.stack) :
    Sound edges names { s with way := way } :=
  { h with way := hway }

/-- **Following an edge keeps the invariant.** -/
theorem follow {target : String} {pending : List String} (h : Sound edges names s)
    (hedges : ∀ n, edges n ⊆ names) (hway : s.way = f :: outer)
    (hp : f.pending = target :: pending) :
    Sound edges names (s.follow edges { f with pending := pending } outer target) := by
  have hs := h.way
  rw [hway] at hs
  obtain ⟨above, below, hstack, hf, hrest⟩ := hs.innermost
  have hedge : target ∈ edges f.name :=
    hf.pending_subset (by rw [hp]; exact List.mem_cons_self)
  unfold Search.follow
  split
  · rename_i hmet
    have hmet : target ∈ s.met := List.contains_iff_mem.mp hmet
    split
    · rename_i hon
      have hon : target ∈ s.stack := List.contains_iff_mem.mp hon
      refine h.withWay ?_
      have hdesc := h.descending
      rw [hstack] at hf hrest hdesc hon ⊢
      -- only a target below `f` can lower the low point
      have hf' := hf.lower (.single hedge) fun hlt =>
        hdesc.mem_below hon (Nat.lt_of_lt_of_le hlt hf.low_le)
      exact WaySound.cons (hf'.follow hp ⟨hmet, fun _ => Nat.min_le_right _ _⟩) hrest
    · rename_i hoff
      have hoff : target ∉ s.stack := fun hon => hoff (List.contains_iff_mem.mpr hon)
      refine h.withWay ?_
      rw [hstack] at hf hrest hoff ⊢
      exact WaySound.cons (hf.follow hp ⟨hmet, fun hc => absurd hc hoff⟩) hrest
  · rename_i hmet
    have hnew : target ∉ s.met := fun hmem => hmet (List.contains_iff_mem.mpr hmem)
    have hk : Keeps s.met s.stack (s.met ++ [target]) (target :: s.stack) := keeps_enter hnew
    -- the edge counts as followed only now that its target is met
    obtain ⟨above, below, hstack, hf, hrest⟩ := (hs.keep hk h.stack_subset).innermost
    have hname : f.name ∈ s.stack := by
      rw [hstack]
      exact List.mem_append_right _ List.mem_cons_self
    have hlt := (List.pairwise_cons.mp (h.descending.enter h.stack_subset hnew)).1 f.name hname
    have hsettled : Settled (s.met ++ [target]) (target :: s.stack) f.low target :=
      ⟨List.mem_append_right _ (List.mem_singleton_self _),
        fun _ => Nat.le_of_lt (Nat.lt_of_le_of_lt hf.low_le hlt)⟩
    have hway' : WaySound edges (s.met ++ [target]) (target :: s.stack)
        ({ f with pending := pending } :: outer) (above ++ f.name :: below) :=
      .cons (hf.follow hp hsettled) hrest
    rw [← hstack] at hway'
    refine h.enter (hedges f.name hedge) hnew hway' fun g hg => ?_
    cases hg
    exact .single hedge

section Leave

variable (h : Sound edges names s) (hp : f.pending = [])
  (hstack : s.stack = above ++ f.name :: below)
  (hf : f.Sound edges s.met s.stack outer above below)
include h hp hstack hf

/-- An edge to the stack leads no further down than to the low point, so if this is the name itself,
it stays in the part of the name. -/
theorem mem_part_of_edge (hlow : f.low = s.met.idxOf f.name) :
    ∀ m ∈ above ++ [f.name], ∀ n ∈ edges m,
      n ∈ s.components.flatten ∨ n ∈ above ++ [f.name] := by
  intro m hm n hn
  have hdesc := h.descending
  obtain ⟨hmet, hplace⟩ := hf.part_settled hp m hm n hn
  rcases (h.met_iff n).mp hmet with hon | hin
  · have hle := hplace hon
    rw [hstack] at hon hdesc
    refine Or.inr ?_
    rcases List.mem_append.mp hon with hon | hon
    · exact List.mem_append_left _ hon
    · rcases List.mem_cons.mp hon with rfl | hon
      · exact List.mem_append_right _ (List.mem_singleton_self _)
      · have hlt := hdesc.lt_of_mem_below hon
        omega
  · exact Or.inl hin

/-- **Taking a component off the stack keeps the invariant.** -/
theorem complete (hlow : f.low = s.met.idxOf f.name) {way : List Frame}
    (hway : WaySound edges s.met s.stack way below) :
    Sound edges names (Search.complete names { s with way := way } f.name) := by
  have hdesc := h.descending
  have hmem : ∀ m, m ∈ s.stack ↔ m ∈ above ++ [f.name] ∨ m ∈ below := by
    intro m
    rw [hstack]
    simp [or_assoc]
  rw [hstack] at hdesc
  have hnames : above ++ [f.name] ⊆ names := fun m hm =>
    h.met_subset (h.stack_subset ((hmem m).mpr (Or.inl hm)))
  have hgrouped := h.grouped.append hnames (List.mem_append_right _ (List.mem_singleton_self _))
    hf.part_mutual (fun m hm => h.stack_new m ((hmem m).mpr (Or.inl hm)))
    (h.mem_part_of_edge hp hstack hf hlow)
  rw [complete_eq (s := { s with way := way }) hstack fun hc =>
    Nat.lt_irrefl _ (hdesc.lt_of_mem_above hc)]
  refine ⟨h.met_subset, fun m => ?_, fun m hm hc => ?_, hdesc.rest, ?_, hgrouped⟩
  · rw [mem_flatten_append_filter hnames, h.met_iff, hmem]
    tauto
  · rcases (mem_flatten_append_filter hnames).mp hc with hc | hc
    · exact h.stack_new m ((hmem m).mpr (Or.inr hm)) hc
    · have hlt := hdesc.lt_of_mem_below hm
      rcases List.mem_append.mp hc with hc | hc
      · have := hdesc.lt_of_mem_above hc
        omega
      · rw [List.mem_singleton.mp hc] at hlt
        omega
  · have hk : Keeps s.met s.stack s.met below := by
      rw [hstack]
      exact keeps_complete
    exact hway.keep hk fun m hm => h.stack_subset ((hmem m).mpr (Or.inr hm))

/-- **Leaving a name keeps the invariant.** -/
theorem leave (hrest : WaySound edges s.met s.stack outer below) :
    Sound edges names (s.leave names f outer) := by
  have hdesc := h.descending
  rw [hstack] at hdesc
  unfold Search.leave
  dsimp only
  split
  · rename_i hlow
    exact h.complete hp hstack hf (beq_iff_eq.mp hlow) (WaySound.lowered hf hrest hdesc)
  · rename_i hlow
    refine h.withWay ?_
    rw [hstack] at hf hrest ⊢
    exact WaySound.retreat hf hrest hdesc hp fun heq => hlow (beq_iff_eq.mpr heq)

end Leave

/-- **A step keeps the invariant.** -/
theorem step (h : Sound edges names s) (hedges : ∀ n, edges n ⊆ names) :
    Sound edges names (s.step edges names) := by
  unfold Search.step
  split
  · exact h
  · rename_i f outer hway
    split
    · rename_i hp
      have hs := h.way
      rw [hway] at hs
      obtain ⟨above, below, hstack, hf, hrest⟩ := hs.innermost
      exact h.leave hp hstack hf hrest
    · rename_i target pending hp
      exact h.follow hedges hway hp

end Sound

end Search

end SchemaForge.Reference
