import Mathlib.Data.List.Forall2
import Mathlib.Data.List.Perm.Basic

/-!
# Outcomes of steps that may fail

What a sequence of steps that may fail gives, in terms of its single steps: it succeeds if all of
them do, and it fails as the first of them that fails.
-/

namespace SchemaForge.Outcome

variable {ε α β : Type}

theorem ok_bind (a : α) (f : α → Except ε β) : ((.ok a : Except ε α) >>= f) = f a := rfl

theorem bind_eq_ok {x : Except ε α} {f : α → Except ε β} {b : β} :
    (x >>= f) = .ok b ↔ ∃ a, x = .ok a ∧ f a = .ok b := by
  cases x with
  | error e => simp [bind, Except.bind]
  | ok a => simp [bind, Except.bind]

theorem map_eq_ok {x : Except ε α} {f : α → β} {b : β} :
    x.map f = .ok b ↔ ∃ a, x = .ok a ∧ f a = b := by
  cases x <;> simp [Except.map]

theorem toOption_eq_some {x : Except ε α} {a : α} : x.toOption = some a ↔ x = .ok a := by
  cases x <;> simp [Except.toOption]

variable {f : α → Except ε β}

theorem forall₂_of_mapM : ∀ {l : List α} {r : List β}, l.mapM f = .ok r →
    List.Forall₂ (fun x y => f x = .ok y) l r
  | [], r, h => by
    rw [List.mapM_nil] at h
    cases h
    exact .nil
  | x :: l, r, h => by
    rw [List.mapM_cons] at h
    obtain ⟨y, hy, h⟩ := bind_eq_ok.mp h
    obtain ⟨ys, hys, h⟩ := bind_eq_ok.mp h
    cases h
    exact .cons hy (forall₂_of_mapM hys)

theorem mapM_of_forall₂ : ∀ {l : List α} {r : List β},
    List.Forall₂ (fun x y => f x = .ok y) l r → l.mapM f = .ok r
  | [], _, .nil => by
    rw [List.mapM_nil]
    rfl
  | x :: l, _, .cons hy hys => by
    rw [List.mapM_cons, hy, mapM_of_forall₂ hys]
    rfl

theorem exists_right_of_mem {R : α → β → Prop} {l : List α} {r : List β}
    (h : List.Forall₂ R l r) {x : α} (hx : x ∈ l) : ∃ y ∈ r, R x y := by
  induction h with
  | nil => exact absurd hx List.not_mem_nil
  | cons hxy _ ih =>
    rcases List.mem_cons.mp hx with rfl | hx
    · exact ⟨_, List.mem_cons_self, hxy⟩
    · obtain ⟨y, hy, hxy⟩ := ih hx
      exact ⟨y, List.mem_cons_of_mem _ hy, hxy⟩

theorem exists_left_of_mem {R : α → β → Prop} {l : List α} {r : List β}
    (h : List.Forall₂ R l r) {y : β} (hy : y ∈ r) : ∃ x ∈ l, R x y :=
  exists_right_of_mem h.flip hy

/-- What holds of all results, in terms of what they are the results of. -/
theorem forall_mem_iff_of_mapM {l : List α} {r : List β} (hr : l.mapM f = .ok r) {P : β → Prop}
    {Q : α → Prop} (h : ∀ {x y}, f x = .ok y → (P y ↔ Q x)) :
    (∀ y ∈ r, P y) ↔ ∀ x ∈ l, Q x := by
  have hall := forall₂_of_mapM hr
  constructor
  · intro hP x hx
    obtain ⟨y, hy, hxy⟩ := exists_right_of_mem hall hx
    exact (h hxy).mp (hP y hy)
  · intro hQ y hy
    obtain ⟨x, hx, hxy⟩ := exists_left_of_mem hall hy
    exact (h hxy).mpr (hQ x hx)

/-- What is in a relation item by item stands in the two lists. -/
theorem forall₂_mem {R : α → β → Prop} {l : List α} {r : List β} (h : List.Forall₂ R l r) :
    List.Forall₂ (fun x y => x ∈ l ∧ y ∈ r ∧ R x y) l r := by
  have hright : List.Forall₂ (fun y x => y ∈ r ∧ R x y) r l :=
    (List.forall₂_and_left _ _).mpr ⟨fun _ hy => hy, h.flip⟩
  exact (List.forall₂_and_left _ _).mpr ⟨fun _ hx => hx, hright.flip⟩

theorem exists_mapM_of_forall : ∀ {l : List α}, (∀ x ∈ l, ∃ y, f x = .ok y) →
    ∃ r, l.mapM f = .ok r
  | [], _ => ⟨[], mapM_of_forall₂ .nil⟩
  | x :: l, h => by
    obtain ⟨y, hy⟩ := h x List.mem_cons_self
    obtain ⟨r, hr⟩ := exists_mapM_of_forall fun z hz => h z (List.mem_cons_of_mem _ hz)
    exact ⟨y :: r, mapM_of_forall₂ (.cons hy (forall₂_of_mapM hr))⟩

/-- Steps without results succeed if each of them does. -/
theorem forM_eq_ok {f : α → Except ε Unit} : ∀ {l : List α},
    l.forM f = .ok () ↔ ∀ x ∈ l, f x = .ok ()
  | [] => by simp [pure, Except.pure]
  | x :: l => by
    show (f x >>= fun _ => l.forM f) = .ok () ↔ _
    rw [bind_eq_ok, List.forall_mem_cons]
    constructor
    · rintro ⟨⟨⟩, hx, hl⟩
      exact ⟨hx, forM_eq_ok.mp hl⟩
    · rintro ⟨hx, hl⟩
      exact ⟨⟨⟩, hx, forM_eq_ok.mpr hl⟩

/-- Where there is only one way to fail, a sequence fails in this way if a step does. -/
theorem mapM_eq_error {e : ε} (he : ∀ x e', f x = .error e' → e' = e) : ∀ {l : List α},
    (∃ x ∈ l, ∀ y, f x ≠ .ok y) → l.mapM f = .error e
  | [], h => by simp at h
  | x :: l, h => by
    rw [List.mapM_cons]
    cases hx : f x with
    | error e' =>
      rw [he x e' hx]
      rfl
    | ok y =>
      obtain ⟨z, hz, hfail⟩ := h
      rcases List.mem_cons.mp hz with rfl | hz
      · exact absurd hx (hfail y)
      · have hrest : l.mapM f = .error e := mapM_eq_error he ⟨z, hz, hfail⟩
        show (l.mapM f >>= fun ys => pure (y :: ys)) = .error e
        rw [hrest]
        rfl

/-- In another order the same steps give the same results, in that order. -/
theorem exists_mapM_of_perm {l l' : List α} {r' : List β} (h : l.Perm l') (hr : l'.mapM f = .ok r') :
    ∃ r, l.mapM f = .ok r ∧ r.Perm r' := by
  obtain ⟨r, hr, hperm⟩ := List.perm_comp_forall₂ h (forall₂_of_mapM hr)
  exact ⟨r, mapM_of_forall₂ hr, hperm⟩

/-- In any order a sequence of steps fails, or it succeeds with the same results. -/
theorem mapM_perm {l l' : List α} (h : l.Perm l') :
    Option.Rel List.Perm (l.mapM f).toOption (l'.mapM f).toOption := by
  cases hl : l'.mapM f with
  | ok r' =>
    obtain ⟨r, hr, hperm⟩ := exists_mapM_of_perm h hl
    rw [hr]
    exact .some hperm
  | error e =>
    cases hr : l.mapM f with
    | ok r =>
      obtain ⟨r', hr', -⟩ := exists_mapM_of_perm h.symm hr
      rw [hl] at hr'
      cases hr'
    | error e' => exact .none

/-! ## Tests that may fail -/

/-- Whether a test succeeds and says yes. -/
def accepts (f : α → Except ε Bool) (x : α) : Bool :=
  match f x with
  | .ok b => b
  | .error _ => false

theorem accepts_of_ok {f : α → Except ε Bool} {x : α} {b : Bool} (h : f x = .ok b) :
    accepts f x = b := by
  rw [accepts, h]

theorem filterAuxM_eq_ok {f : α → Except ε Bool} : ∀ {l acc r : List α},
    l.filterAuxM f acc = .ok r ↔
      (∀ x ∈ l, ∃ b, f x = .ok b) ∧ r = (l.filter (accepts f)).reverse ++ acc
  | [], acc, r => by
    rw [List.filterAuxM]
    simp [Pure.pure, Except.pure, eq_comm]
  | x :: l, acc, r => by
    rw [List.filterAuxM, bind_eq_ok, List.forall_mem_cons]
    constructor
    · rintro ⟨b, hx, h⟩
      obtain ⟨hl, rfl⟩ := filterAuxM_eq_ok.mp h
      refine ⟨⟨⟨b, hx⟩, hl⟩, ?_⟩
      rw [List.filter_cons, accepts_of_ok hx]
      cases b <;> simp
    · rintro ⟨⟨⟨b, hx⟩, hl⟩, rfl⟩
      refine ⟨b, hx, filterAuxM_eq_ok.mpr ⟨hl, ?_⟩⟩
      rw [List.filter_cons, accepts_of_ok hx]
      cases b <;> simp

/-- What is left of a list by a test that may fail. -/
theorem filterM_eq_ok {f : α → Except ε Bool} {l r : List α} :
    l.filterM f = .ok r ↔ (∀ x ∈ l, ∃ b, f x = .ok b) ∧ r = l.filter (accepts f) := by
  rw [List.filterM, bind_eq_ok]
  constructor
  · rintro ⟨a, ha, h⟩
    obtain ⟨hl, rfl⟩ := filterAuxM_eq_ok.mp ha
    refine ⟨hl, ?_⟩
    cases h
    simp
  · rintro ⟨hl, rfl⟩
    exact ⟨_, filterAuxM_eq_ok.mpr ⟨hl, rfl⟩, by simp [Pure.pure, Except.pure]⟩

/-! ## Two outcomes -/

/-- Two steps end alike: in the same failure, or with results in a relation. -/
inductive Paired {α β : Type} (Q : α → β → Prop) : Except ε α → Except ε β → Prop where
  | ok {a : α} {b : β} (value : Q a b) : Paired Q (.ok a) (.ok b)
  | error {e : ε} : Paired Q (.error e) (.error e)

/-- What follows one and the same step. -/
theorem paired_bind {γ : Type} {Q : α → β → Prop} {x : Except ε γ} {f : γ → Except ε α}
    {g : γ → Except ε β} (h : ∀ v, x = .ok v → Paired Q (f v) (g v)) :
    Paired Q (x >>= f) (x >>= g) := by
  cases x with
  | ok v => exact h v rfl
  | error e => exact .error

theorem Paired.eq {x y : Except ε α} (h : Paired Eq x y) : x = y := by
  cases h with
  | ok hab => rw [hab]
  | error => rfl

/-- Failures may be told otherwise, and results put to use, on both sides. -/
theorem Paired.mapBoth {ε' α' β' : Type} {Q : α → β → Prop} {Q' : α' → β' → Prop}
    {x : Except ε α} {y : Except ε β} (h : Paired Q x y) (report : ε → ε') {f : α → α'} {g : β → β'}
    (hfg : ∀ a b, Q a b → Q' (f a) (g b)) :
    Paired Q' ((x.mapError report).map f) ((y.mapError report).map g) := by
  cases h with
  | ok hab => exact .ok (hfg _ _ hab)
  | error => exact .error

end SchemaForge.Outcome
