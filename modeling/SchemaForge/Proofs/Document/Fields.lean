import Mathlib.Algebra.BigOperators.Group.List.Basic
import Mathlib.Algebra.Order.BigOperators.Group.List
import Mathlib.Data.List.Nodup
import SchemaForge.Document.Value

/-!
# Fields of objects

The operations of an ordered map, by what a look-up gives after them, and how much of an object's
size its fields take up: fields of different names take up different parts of it.
-/

namespace SchemaForge

/-- Only the same text is the same as a text. -/
theorem Scalar.same_text (s : Scalar) (n : String) : s.same (.text n) = (s == .text n) := by
  cases s <;> simp [Scalar.same, Scalar.quantity?]

/-- Only an object has fields. -/
theorem Value.eq_object_of_fields {v : Value} {fields : Fields} (h : v.fields = .ok fields) :
    v = .object fields := by
  cases v with
  | object fs =>
    cases h
    rfl
  | scalar s => cases h
  | list vs => cases h

/-- What is not set counts as an object without fields. -/
theorem Value.fieldsIfSet_eq_ok {v : Value} {fields : Fields} (h : v.fieldsIfSet = .ok fields) :
    fields = [] ∨ v = .object fields := by
  unfold Value.fieldsIfSet at h
  split at h
  · exact Or.inr (Value.eq_object_of_fields h)
  · cases h
    exact Or.inl rfl

namespace Fields

variable {fields : Fields} {n k : String} {v : Value}

/-! ## Looking up -/

theorem get?_nil (n : String) : Fields.get? [] n = none := rfl

/-- The first field with the name counts. -/
theorem get?_cons (f : Scalar × Value) (fields : Fields) (n : String) :
    Fields.get? (f :: fields) n = if f.1 == .text n then some f.2 else fields.get? n := by
  unfold Fields.get?
  rw [List.find?_cons]
  cases f.1 == .text n <;> rfl

theorem value_cons (f : Scalar × Value) (fields : Fields) (n : String) :
    Fields.value (f :: fields) n = if f.1 == .text n then f.2 else fields.value n := by
  unfold Fields.value
  rw [get?_cons]
  split <;> rfl

theorem mem_of_get? (h : fields.get? n = some v) : (.text n, v) ∈ fields := by
  induction fields with
  | nil => simp [get?_nil] at h
  | cons f fields ih =>
    rw [get?_cons] at h
    by_cases hf : (f.1 == .text n) = true
    · rw [if_pos hf, Option.some.injEq] at h
      rw [← h, ← eq_of_beq hf]
      exact List.mem_cons_self
    · rw [if_neg hf] at h
      exact List.mem_cons_of_mem _ (ih h)

theorem value_of_get? (h : fields.get? n = some v) : fields.value n = v := by
  rw [Fields.value, h, Option.getD_some]

theorem has_of_get? (h : fields.get? n = some v) : fields.has n = true := by
  rw [Fields.has, h, Option.isSome_some]

theorem has_of_get?_none (h : fields.get? n = none) : fields.has n = false := by
  rw [Fields.has, h, Option.isSome_none]

/-- A name that is there has a value, which may be null. -/
theorem get?_of_has (h : fields.has n = true) : fields.get? n = some (fields.value n) := by
  obtain ⟨v, hv⟩ := Option.isSome_iff_exists.mp h
  rw [hv, value_of_get? hv]

theorem get?_eq_none (h : ¬ fields.has n = true) : fields.get? n = none := by
  simpa [Fields.has] using h

/-- A name that is missing reads as null. -/
theorem value_eq_null (h : ¬ fields.has n = true) : fields.value n = .null := by
  rw [Fields.value, get?_eq_none h, Option.getD_none]

/-- So a name that does not read as null is there. -/
theorem has_of_value_ne (h : fields.value n ≠ .null) : fields.has n = true := by
  by_contra hn
  exact h (value_eq_null hn)

theorem has_iff_mem_names : fields.has n = true ↔ .text n ∈ fields.names := by
  induction fields with
  | nil => simp [Fields.has, get?_nil, Fields.names]
  | cons f fields ih =>
    have hnames : Fields.names (f :: fields) = f.1 :: Fields.names fields := rfl
    rw [Fields.has, get?_cons, hnames, List.mem_cons]
    by_cases hf : f.1 = .text n
    · simp [hf]
    · rw [if_neg (by simpa using hf), ← Fields.has, ih]
      exact ⟨Or.inr, fun h => h.resolve_left fun hc => hf hc.symm⟩

/-! ## Setting and removing -/

/-- **Putting a field changes what is under its name, and nothing else.** -/
theorem get?_put (fields : Fields) (k : String) (v : Value) (n : String) :
    (fields.put (.text k) v).get? n = if k = n then some v else fields.get? n := by
  induction fields with
  | nil => simp [Fields.put, get?_cons, get?_nil]
  | cons f fields ih =>
    obtain ⟨name, w⟩ := f
    unfold Fields.put
    rw [Scalar.same_text]
    by_cases hk : name = .text k
    · subst hk
      simp only [beq_self_eq_true, if_true, get?_cons]
      by_cases hn : k = n
      · simp [hn]
      · simp [hn]
    · rw [if_neg (by simpa using hk), get?_cons, get?_cons, ih]
      by_cases hn : k = n
      · subst hn
        simp [hk]
      · simp [hn]

/-- **So does erasing it.** -/
theorem get?_erase (fields : Fields) (k n : String) :
    (fields.erase k).get? n = if k = n then none else fields.get? n := by
  induction fields with
  | nil => simp [Fields.erase, get?_nil]
  | cons f fields ih =>
    unfold Fields.erase at ih ⊢
    rw [List.filter_cons]
    by_cases hf : f.1 = .text k
    · rw [if_neg (by simp [hf]), ih, get?_cons]
      by_cases hn : k = n
      · simp [hn]
      · simp [hf, hn]
    · rw [if_pos (by simpa using hf), get?_cons, get?_cons, ih]
      by_cases hn : k = n
      · subst hn
        simp [hf]
      · simp [hn]

theorem value_put_self (fields : Fields) (k : String) (v : Value) :
    (fields.put (.text k) v).value k = v := by
  simp [Fields.value, get?_put]

theorem value_put_of_ne (h : k ≠ n) : (fields.put (.text k) v).value n = fields.value n := by
  simp [Fields.value, get?_put, h]

theorem value_erase_self (fields : Fields) (k : String) : (fields.erase k).value k = .null := by
  simp [Fields.value, get?_erase]

theorem value_erase_of_ne (h : k ≠ n) : (fields.erase k).value n = fields.value n := by
  simp [Fields.value, get?_erase, h]

/-! ## Setting and removing several fields -/

theorem put_cons (f : Scalar × Value) (fields : Fields) (k : String) (v : Value) :
    Fields.put (.text k) v (f :: fields) =
      if f.1 == .text k then (f.1, v) :: fields else f :: fields.put (.text k) v := by
  obtain ⟨name, w⟩ := f
  rw [Fields.put, Scalar.same_text]

theorem erase_cons (f : Scalar × Value) (fields : Fields) (k : String) :
    Fields.erase (f :: fields) k =
      if f.1 == .text k then fields.erase k else f :: fields.erase k := by
  unfold Fields.erase
  rw [List.filter_cons]
  cases f.1 == .text k <;> rfl

/-- The later value counts. -/
theorem put_put (fields : Fields) (k : String) (v w : Value) :
    (fields.put (.text k) v).put (.text k) w = fields.put (.text k) w := by
  induction fields with
  | nil => simp [Fields.put, Scalar.same_text]
  | cons f fields ih =>
    rw [put_cons, put_cons]
    by_cases hf : (f.1 == .text k) = true
    · rw [if_pos hf, if_pos hf, put_cons, if_pos hf]
    · rw [if_neg hf, if_neg hf, put_cons, if_neg hf, ih]

/-- A field that is there may be set before another one or after it. -/
theorem put_comm (hk : k ≠ n) (hn : fields.has n = true) (v w : Value) :
    (fields.put (.text k) v).put (.text n) w = (fields.put (.text n) w).put (.text k) v := by
  induction fields with
  | nil => cases hn
  | cons f fields ih =>
    rw [put_cons, put_cons]
    by_cases hfk : f.1 = .text k
    · have hfn : ¬ (f.1 == .text n) = true := by simpa [hfk] using hk
      rw [if_pos (by simpa using hfk), if_neg hfn, put_cons, put_cons, if_neg hfn,
        if_pos (by simpa using hfk)]
    · rw [if_neg (by simpa using hfk), put_cons]
      by_cases hfn : f.1 = .text n
      · rw [if_pos (by simpa using hfn), if_pos (by simpa using hfn), put_cons,
          if_neg (by simpa using hfk)]
      · have hrest : Fields.has fields n = true := by
          rwa [Fields.has, get?_cons, if_neg (by simpa using hfn)] at hn
        rw [if_neg (by simpa using hfn), if_neg (by simpa using hfn), put_cons,
          if_neg (by simpa using hfk), ih hrest]

theorem erase_put (fields : Fields) (k : String) (v : Value) :
    (fields.put (.text k) v).erase k = fields.erase k := by
  induction fields with
  | nil => simp [Fields.put, Fields.erase]
  | cons f fields ih =>
    rw [put_cons, erase_cons]
    by_cases hf : (f.1 == .text k) = true
    · rw [if_pos hf, if_pos hf, erase_cons, if_pos hf]
    · rw [if_neg hf, if_neg hf, erase_cons, if_neg hf, ih]

/-- Erasing and putting different names can change places. -/
theorem erase_put_of_ne (h : k ≠ n) (fields : Fields) (v : Value) :
    (fields.put (.text k) v).erase n = (fields.erase n).put (.text k) v := by
  induction fields with
  | nil => simp [Fields.put, Fields.erase, h]
  | cons f fields ih =>
    rw [put_cons, erase_cons]
    by_cases hfn : (f.1 == .text n) = true
    · have hfk : ¬ (f.1 == .text k) = true := by
        rw [eq_of_beq hfn]
        simpa using h.symm
      rw [if_neg hfk, if_pos hfn, erase_cons, if_pos hfn, ih]
    · rw [if_neg hfn, put_cons]
      by_cases hfk : (f.1 == .text k) = true
      · rw [if_pos hfk, if_pos hfk, erase_cons, if_neg hfn]
      · rw [if_neg hfk, if_neg hfk, erase_cons, if_neg hfn, ih]

theorem erase_of_not_has (h : ¬ fields.has n = true) : fields.erase n = fields := by
  unfold Fields.erase
  refine List.filter_eq_self.mpr fun f hf => ?_
  have hname : f.1 ≠ .text n := by
    intro hname
    refine h (has_iff_mem_names.mpr ?_)
    rw [← hname]
    exact List.mem_map_of_mem hf
  simpa using hname

/-! ## Size -/

/-- The size of a field's value; nothing if there is no such field. -/
def weightAt (fields : Fields) (n : String) : Nat := ((fields.get? n).map Value.weight).getD 0

/-- The size of the values of several fields. -/
def weightsAt (fields : Fields) : List String → Nat
  | [] => 0
  | n :: names => fields.weightAt n + fields.weightsAt names

theorem weightsAt_append (fields : Fields) : ∀ names names' : List String,
    fields.weightsAt (names ++ names') = fields.weightsAt names + fields.weightsAt names'
  | [], names' => by simp [weightsAt]
  | n :: names, names' => by
    rw [List.cons_append, weightsAt, weightsAt, weightsAt_append fields names names']
    omega

/-- Weights at some names depend on what is under these names only. -/
theorem weightsAt_congr {fields fields' : Fields} : ∀ {names : List String},
    (∀ n ∈ names, fields'.weightAt n = fields.weightAt n) →
    fields'.weightsAt names = fields.weightsAt names
  | [], _ => rfl
  | n :: names, h => by
    obtain ⟨hn, hnames⟩ := List.forall_mem_cons.mp h
    rw [weightsAt, weightsAt, hn, weightsAt_congr hnames]

/-- One more field adds its value's size at most once. -/
theorem weightsAt_cons_le (f : Scalar × Value) (fields : Fields) : ∀ {names : List String},
    names.Nodup → Fields.weightsAt (f :: fields) names ≤ f.2.weight + fields.weightsAt names
  | [], _ => by simp [weightsAt]
  | n :: names, hnodup => by
    obtain ⟨hn, hnodup⟩ := List.nodup_cons.mp hnodup
    rw [weightsAt, weightsAt]
    by_cases hf : f.1 = .text n
    · have hrest : Fields.weightsAt (f :: fields) names = fields.weightsAt names := by
        refine weightsAt_congr fun m hm => ?_
        have hmn : n ≠ m := fun he => hn (he ▸ hm)
        simp [Fields.weightAt, get?_cons, hf, hmn]
      rw [hrest]
      simp only [Fields.weightAt, get?_cons, hf, beq_self_eq_true, if_true, Option.map_some,
        Option.getD_some]
      omega
    · have hhead : Fields.weightAt (f :: fields) n = fields.weightAt n := by
        simp [Fields.weightAt, get?_cons, hf]
      have ih := weightsAt_cons_le f fields hnodup
      omega

theorem weightsAt_nil : ∀ names : List String, Fields.weightsAt [] names = 0
  | [] => rfl
  | _ :: names => by
    rw [weightsAt, weightsAt_nil names]
    rfl

/-- **Fields of different names take up different parts of an object.** -/
theorem weightsAt_le : ∀ (fields : Fields) {names : List String}, names.Nodup →
    fields.weightsAt names ≤ Fields.weight fields
  | [], names, _ => by
    rw [weightsAt_nil]
    exact Nat.zero_le _
  | f :: fields, names, hnodup => by
    have hcons := weightsAt_cons_le f fields hnodup
    have ih := weightsAt_le fields hnodup
    have hweight : Fields.weight (f :: fields) = f.2.weight + Fields.weight fields := by
      obtain ⟨k, v⟩ := f
      rw [Fields.weight]
    omega

theorem weight_value_le (h : fields.has n = true) :
    (fields.value n).weight ≤ fields.weightAt n := by
  rw [Fields.weightAt, get?_of_has h]
  exact Nat.le_refl _

end Fields

end SchemaForge
