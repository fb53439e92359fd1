import SchemaForge.Proofs.Document.Fields
import SchemaForge.Proofs.Document.Sameness

/-!
# Documents that name no field twice

As every document that was read, and every dictionary. Looking up a name gives the value of the one
field that has it, whichever of the names that are the same it is looked up by.
-/

namespace SchemaForge

mutual

/-- Whether no object inside a document names a field twice. -/
def Value.distinct : Value → Bool
  | .scalar _ => true
  | .list items => Value.distinctAll items
  | .object fields => Fields.distinct fields

def Value.distinctAll : List Value → Bool
  | [] => true
  | v :: vs => v.distinct && Value.distinctAll vs

/-- Whether some fields, and the fields of every object inside them, have different names. -/
def Fields.distinct : List (Scalar × Value) → Bool
  | [] => true
  | (name, v) :: fields =>
    v.distinct && fields.all (fun f => !name.same f.1) && Fields.distinct fields

end

theorem Value.distinctAll_iff : ∀ {vs : List Value},
    Value.distinctAll vs = true ↔ ∀ v ∈ vs, v.distinct = true
  | [] => by simp [Value.distinctAll]
  | v :: vs => by
    rw [Value.distinctAll, Bool.and_eq_true, Value.distinctAll_iff, List.forall_mem_cons]

/-- What is walked over is as distinct as the value that holds it. -/
theorem Value.distinct_walk {v : Value} {items : List Value} (h : v.distinct = true)
    (hw : v.walk = .ok items) : ∀ item ∈ items, item.distinct = true := by
  intro item hitem
  cases v with
  | list vs =>
    cases hw
    exact Value.distinctAll_iff.mp h item hitem
  | object fields =>
    cases hw
    obtain ⟨f, -, rfl⟩ := List.mem_map.mp hitem
    rfl
  | scalar s =>
    cases s with
    | text t =>
      cases hw
      obtain ⟨c, -, rfl⟩ := List.mem_map.mp hitem
      rfl
    | _ => cases hw

namespace Fields

variable {fields : Fields} {k n : Scalar} {v : Value}

theorem distinct_cons : Fields.distinct ((k, v) :: fields) = true ↔
    v.distinct = true ∧ (∀ f ∈ fields, k.same f.1 = false) ∧ Fields.distinct fields = true := by
  rw [Fields.distinct, Bool.and_eq_true, Bool.and_eq_true, List.all_eq_true, and_assoc]
  simp only [Bool.not_eq_true']

/-- **An object is distinct if its values are and no two of its names count as the same.** -/
theorem distinct_iff : ∀ {fields : Fields}, Fields.distinct fields = true ↔
    (∀ f ∈ fields, f.2.distinct = true) ∧ fields.Pairwise fun f g => f.1.same g.1 = false
  | [] => by simp [Fields.distinct]
  | (name, v) :: fields => by
    rw [distinct_cons, distinct_iff, List.forall_mem_cons, List.pairwise_cons]
    exact ⟨fun ⟨hv, hname, hfields, hpair⟩ => ⟨⟨hv, hfields⟩, hname, hpair⟩,
      fun ⟨⟨hv, hfields⟩, hname, hpair⟩ => ⟨hv, hname, hfields, hpair⟩⟩

/-! ## Looking up -/

/-- Names that count as the same are looked up alike. -/
theorem lookup_congr (h : n.same k = true) : ∀ fields : Fields, lookup n fields = lookup k fields
  | [] => rfl
  | (name, v) :: fields => by
    rw [lookup, lookup, Scalar.same_congr h, lookup_congr h fields]

/-- What is found stands in a field with a name that counts as the same. -/
theorem mem_of_lookup : ∀ {fields : Fields}, lookup n fields = some v →
    ∃ k, (k, v) ∈ fields ∧ k.same n = true
  | [], h => nomatch h
  | (name, w) :: fields, h => by
    rw [lookup] at h
    split at h
    · rename_i hname
      cases h
      exact ⟨name, List.mem_cons_self, hname⟩
    · obtain ⟨k, hk, hsame⟩ := mem_of_lookup h
      exact ⟨k, List.mem_cons_of_mem _ hk, hsame⟩

/-- The first fields count. -/
theorem lookup_append (n : Scalar) : ∀ fields more : Fields,
    lookup n (fields ++ more) = (lookup n fields).or (lookup n more)
  | [], more => rfl
  | (k, v) :: fields, more => by
    rw [List.cons_append, lookup, lookup, lookup_append n fields more]
    split <;> rfl

theorem lookup_eq_none_iff : ∀ {fields : Fields},
    lookup n fields = none ↔ ∀ f ∈ fields, f.1.same n = false
  | [] => by simp [lookup]
  | (k, v) :: fields => by
    rw [lookup, List.forall_mem_cons, ← lookup_eq_none_iff]
    cases k.same n <;> simp

/-- **A name is looked up as the one field that has it.** -/
theorem lookup_of_mem (hdistinct : fields.Pairwise fun f g => f.1.same g.1 = false)
    (hmem : (k, v) ∈ fields) (hk : k.same n = true) : lookup n fields = some v := by
  induction fields with
  | nil => cases hmem
  | cons f fields ih =>
    obtain ⟨hfirst, hrest⟩ := List.pairwise_cons.mp hdistinct
    obtain ⟨name, w⟩ := f
    rw [lookup]
    rcases List.mem_cons.mp hmem with heq | hmem
    · cases heq
      rw [if_pos hk]
    · rw [if_neg, ih hrest hmem]
      intro hname
      have hsame : name.same k = true := Scalar.same_trans hname (Scalar.same_symm hk)
      rw [hfirst _ hmem] at hsame
      cases hsame

/-- Of the fields that are kept for their values, a name is looked up as before. -/
theorem lookup_filter (hdistinct : fields.Pairwise fun f g => f.1.same g.1 = false)
    (keep : Value → Bool) :
    lookup n (fields.filter fun f => keep f.2) = (lookup n fields).filter keep := by
  cases hv : lookup n fields with
  | none =>
    exact lookup_eq_none_iff.mpr fun f hf => lookup_eq_none_iff.mp hv f (List.mem_of_mem_filter hf)
  | some v =>
    obtain ⟨k, hmem, hk⟩ := mem_of_lookup hv
    cases hkeep : keep v with
    | true =>
      rw [lookup_of_mem (hdistinct.filter _) (List.mem_filter.mpr ⟨hmem, hkeep⟩) hk,
        Option.filter_some, if_pos hkeep]
    | false =>
      rw [Option.filter_some, if_neg (by simp [hkeep]), lookup_eq_none_iff]
      intro f hf
      obtain ⟨hin, hkept⟩ := List.mem_filter.mp hf
      by_contra hname
      have hsame : lookup n fields = some f.2 := lookup_of_mem hdistinct hin (by simpa using hname)
      rw [hv, Option.some.injEq] at hsame
      rw [hsame, hkept] at hkeep
      cases hkeep

/-- What corresponds field by field is looked up in both or in neither. -/
theorem lookup_forall₂ {P : Value → Value → Prop} {fields' : Fields}
    (h : List.Forall₂ (fun f f' => f.1 = f'.1 ∧ P f.2 f'.2) fields fields') (n : Scalar) :
    (lookup n fields = none ∧ lookup n fields' = none) ∨
      ∃ v v', lookup n fields = some v ∧ lookup n fields' = some v' ∧ P v v' := by
  induction h with
  | nil => exact Or.inl ⟨rfl, rfl⟩
  | @cons f f' fields fields' hf _ ih =>
    obtain ⟨k, v⟩ := f
    obtain ⟨k', v'⟩ := f'
    obtain ⟨rfl, hP⟩ := hf
    rw [lookup, lookup]
    split
    · exact Or.inr ⟨v, v', rfl, rfl, hP⟩
    · exact ih

/-- A keyword is looked up as a text. -/
theorem get?_eq_lookup (name : String) : ∀ fields : Fields,
    fields.get? name = lookup (.text name) fields
  | [] => rfl
  | (k, v) :: fields => by
    rw [get?_cons, lookup, Scalar.same_text, get?_eq_lookup name fields]

/-- With distinct names every field is found. -/
theorem get?_of_mem (hdistinct : fields.Pairwise fun f g => f.1.same g.1 = false) {name : String}
    (hmem : (.text name, v) ∈ fields) : fields.get? name = some v := by
  rw [get?_eq_lookup]
  exact lookup_of_mem hdistinct hmem (by rw [Scalar.same_text, beq_self_eq_true])

/-! ## Parts of documents -/

theorem distinct_of_mem (h : Fields.distinct fields = true) (hmem : (k, v) ∈ fields) :
    v.distinct = true :=
  (distinct_iff.mp h).1 _ hmem

theorem distinct_value (h : Fields.distinct fields = true) (name : String) :
    (fields.value name).distinct = true := by
  cases hv : fields.get? name with
  | none =>
    rw [Fields.value, hv]
    rfl
  | some v =>
    rw [value_of_get? hv]
    exact distinct_of_mem h (mem_of_get? hv)

/-- Fields that are kept still have different names. -/
theorem distinct_filter (h : Fields.distinct fields = true) (keep : Scalar × Value → Bool) :
    Fields.distinct (fields.filter keep) = true := by
  obtain ⟨hvalues, hpair⟩ := distinct_iff.mp h
  exact distinct_iff.mpr ⟨fun f hf => hvalues f (List.mem_of_mem_filter hf), hpair.filter keep⟩

theorem mem_put {name : String} : ∀ {fields : Fields} {f : Scalar × Value},
    f ∈ fields.put (.text name) v → f = (.text name, v) ∨ ∃ g ∈ fields, g.1 = f.1
  | [], f, h => Or.inl (List.mem_singleton.mp h)
  | g :: fields, f, h => by
    rw [put_cons] at h
    split at h
    · rcases List.mem_cons.mp h with rfl | h
      · exact Or.inr ⟨g, List.mem_cons_self, rfl⟩
      · exact Or.inr ⟨f, List.mem_cons_of_mem _ h, rfl⟩
    · rcases List.mem_cons.mp h with rfl | h
      · exact Or.inr ⟨f, List.mem_cons_self, rfl⟩
      · rcases mem_put h with hnew | ⟨g', hg, hname⟩
        · exact Or.inl hnew
        · exact Or.inr ⟨g', List.mem_cons_of_mem _ hg, hname⟩

/-- Putting a field keeps names distinct: it replaces the one with its name, or there was none. -/
theorem distinct_put (hv : v.distinct = true) (name : String) : ∀ {fields : Fields},
    Fields.distinct fields = true → Fields.distinct (fields.put (.text name) v) = true
  | [], _ => by simp [Fields.put, Fields.distinct, hv]
  | (k, w) :: fields, h => by
    obtain ⟨hw, hfirst, hrest⟩ := distinct_cons.mp h
    rw [put_cons]
    split
    · exact distinct_cons.mpr ⟨hv, hfirst, hrest⟩
    · rename_i hname
      refine distinct_cons.mpr ⟨hw, fun f hf => ?_, distinct_put hv name hrest⟩
      rcases mem_put hf with rfl | ⟨g, hg, hsame⟩
      · rw [Scalar.same_text]
        simpa using hname
      · exact hsame ▸ hfirst g hg

theorem distinct_erase (h : Fields.distinct fields = true) (name : String) :
    Fields.distinct (fields.erase name) = true :=
  distinct_filter h _

end Fields

end SchemaForge
