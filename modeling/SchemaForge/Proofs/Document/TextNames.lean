import SchemaForge.Proofs.Document.JsonText
import SchemaForge.Proofs.Outcome

/-!
# Documents whose fields are named by texts

As in every document that was read from JSON. Their names can always be put in order, so such a
document has a canonical text.
-/

namespace SchemaForge

mutual

/-- Whether all fields inside a document are named by texts. -/
def Value.textNamed : Value → Bool
  | .scalar _ => true
  | .list items => Value.textNamedAll items
  | .object fields => Fields.textNamed fields

def Value.textNamedAll : List Value → Bool
  | [] => true
  | v :: vs => v.textNamed && Value.textNamedAll vs

/-- Whether all of some fields, and all fields inside them, are named by texts. -/
def Fields.textNamed : List (Scalar × Value) → Bool
  | [] => true
  | (name, v) :: fields => (Value.scalar name).isText && v.textNamed && Fields.textNamed fields

end

theorem Value.textNamedAll_iff : ∀ {vs : List Value},
    Value.textNamedAll vs = true ↔ ∀ v ∈ vs, v.textNamed = true
  | [] => by simp [Value.textNamedAll]
  | v :: vs => by
    rw [Value.textNamedAll, Bool.and_eq_true, Value.textNamedAll_iff, List.forall_mem_cons]

theorem Value.textNamed_walk {v : Value} {items : List Value} (h : v.textNamed = true)
    (hw : v.walk = .ok items) : ∀ item ∈ items, item.textNamed = true := by
  intro item hitem
  cases v with
  | list vs =>
    cases hw
    exact Value.textNamedAll_iff.mp h item hitem
  | object fields =>
    cases hw
    obtain ⟨f, -, rfl⟩ := List.mem_map.mp hitem
    rfl
  | scalar s =>
    cases s with
    | text t =>
      cases hw
      obtain ⟨c, -, rfl⟩ := List.mem_map.mp hitem
      rfl
    | _ => cases hw

theorem Value.isText_scalar {s : Scalar} : (Value.scalar s).isText = true ↔ ∃ t, s = .text t := by
  cases s <;> simp [Value.isText]

/-- A text is the same as nothing but itself. -/
theorem Scalar.text_same (t : String) (s : Scalar) : Scalar.same (.text t) s = (s == .text t) := by
  cases s with
  | text u => simp [Scalar.same, Scalar.quantity?, eq_comm]
  | _ => simp [Scalar.same, Scalar.quantity?]

namespace Fields

variable {fields : Fields}

theorem textNamed_iff : ∀ {fields : Fields}, Fields.textNamed fields = true ↔
    ∀ f ∈ fields, (∃ t, f.1 = .text t) ∧ f.2.textNamed = true
  | [] => by simp [Fields.textNamed]
  | (name, v) :: fields => by
    rw [Fields.textNamed, Bool.and_eq_true, Bool.and_eq_true, textNamed_iff, List.forall_mem_cons,
      Value.isText_scalar]

theorem textNamed_value (h : Fields.textNamed fields = true) (k : String) :
    (fields.value k).textNamed = true := by
  cases hk : fields.get? k with
  | none =>
    rw [Fields.value, hk]
    rfl
  | some v =>
    rw [value_of_get? hk]
    exact (textNamed_iff.mp h _ (mem_of_get? hk)).2

theorem textNamed_put (h : Fields.textNamed fields = true) (k : String) {v : Value}
    (hv : v.textNamed = true) : Fields.textNamed (fields.put (.text k) v) = true := by
  induction fields with
  | nil => simp [Fields.put, Fields.textNamed, Value.isText, hv]
  | cons f fields ih =>
    obtain ⟨hf, hrest⟩ := List.forall_mem_cons.mp (textNamed_iff.mp h)
    rw [put_cons]
    split
    · exact textNamed_iff.mpr (List.forall_mem_cons.mpr ⟨⟨hf.1, hv⟩, hrest⟩)
    · refine textNamed_iff.mpr (List.forall_mem_cons.mpr ⟨hf, ?_⟩)
      exact textNamed_iff.mp (ih (textNamed_iff.mpr hrest))

theorem textNamed_erase (h : Fields.textNamed fields = true) (k : String) :
    Fields.textNamed (fields.erase k) = true :=
  textNamed_iff.mpr fun f hf => textNamed_iff.mp h f (List.mem_of_mem_filter hf)

/-- Among fields named by texts a name is found if it is there. -/
theorem hasName_iff_of_textNamed (h : ∀ f ∈ fields, ∃ t, f.1 = .text t) (name : Scalar) :
    fields.hasName name = true ↔ name ∈ fields.names := by
  induction fields with
  | nil => simp [Fields.hasName, Fields.lookup, Fields.names]
  | cons f fields ih =>
    obtain ⟨⟨t, ht⟩, hrest⟩ := List.forall_mem_cons.mp h
    obtain ⟨n, v⟩ := f
    dsimp only at ht
    subst ht
    have hnames : Fields.names ((.text t, v) :: fields) = .text t :: Fields.names fields := rfl
    rw [hnames, List.mem_cons, ← ih hrest, Fields.hasName, Fields.lookup, Scalar.text_same]
    by_cases hname : name = .text t
    · simp [hname]
    · simp [hname, Fields.hasName]

end Fields

/-! ## Canonical texts -/

namespace Json

theorem sortable_of_texts {names : List Scalar} (h : ∀ n ∈ names, ∃ t, n = .text t) :
    sortable names = true := by
  refine Bool.or_eq_true_iff.mpr (Or.inl (Bool.or_eq_true_iff.mpr (Or.inr ?_)))
  rw [List.all_eq_true]
  intro n hn
  obtain ⟨t, rfl⟩ := h n hn
  rfl

/-- Written fields that are named by texts can be put together. -/
theorem exists_writeFields {style : Style} {parts : List (Scalar × String)}
    (h : ∀ p ∈ parts, ∃ t, p.1 = .text t) :
    ∃ texts, (parts.mapM (writeField style)) = .ok texts := by
  refine Outcome.exists_mapM_of_forall fun p hp => ?_
  obtain ⟨t, ht⟩ := h p hp
  rw [writeField, ht]
  exact ⟨_, rfl⟩

theorem exists_sorted {parts : List (Scalar × String)} (h : ∀ p ∈ parts, ∃ t, p.1 = .text t) :
    ∃ sorted, sortFields parts = .ok sorted ∧ ∀ p ∈ sorted, ∃ t, p.1 = .text t := by
  have hsortable : sortable (parts.map (·.1)) = true := by
    refine sortable_of_texts fun n hn => ?_
    obtain ⟨p, hp, rfl⟩ := List.mem_map.mp hn
    exact h p hp
  have hsorted : sortFields parts = .ok (parts.foldr insertField []) := by
    rw [sortFields, if_pos hsortable]
  exact ⟨_, hsorted, fun p hp => h p ((sortFields_perm hsorted).mem_iff.mp hp)⟩

/-- Fields that can be written one by one can be written together. -/
theorem exists_write_object {fields : Fields} {parts : List (Scalar × String)}
    (h : writeValues canonical fields = .ok parts) (hnames : ∀ p ∈ parts, ∃ t, p.1 = .text t) :
    ∃ t, write canonical (.object fields) = .ok t := by
  obtain ⟨sorted, hsorted, htexts⟩ := exists_sorted hnames
  obtain ⟨texts, hwritten⟩ : ∃ texts, sorted.mapM (writeField canonical) = .ok texts :=
    exists_writeFields htexts
  refine ⟨"\x7b" ++ Text.join ", " texts ++ "\x7d", ?_⟩
  rw [write, h]
  show (sortFields parts >>= fun parts => _) = _
  rw [hsorted]
  show (sorted.mapM (writeField canonical) >>= fun parts => _) = _
  rw [hwritten]
  rfl

mutual

/-- **A document whose fields are named by texts has a canonical text.** -/
theorem exists_write : ∀ {v : Value}, v.textNamed = true → ∃ t, write canonical v = .ok t
  | .scalar s, _ => by cases s <;> exact ⟨_, rfl⟩
  | .list vs, h => by
    obtain ⟨parts, hparts⟩ := exists_writeAll h
    exact ⟨_, by rw [write, hparts]; rfl⟩
  | .object fields, h => by
    obtain ⟨parts, hparts, hnames⟩ := exists_writeValues h
    exact exists_write_object hparts hnames
termination_by structural v => v

theorem exists_writeAll : ∀ {vs : List Value}, Value.textNamedAll vs = true →
    ∃ parts, writeAll canonical vs = .ok parts
  | [], _ => ⟨[], rfl⟩
  | v :: vs, h => by
    obtain ⟨hv, hvs⟩ := Bool.and_eq_true_iff.mp h
    obtain ⟨part, hpart⟩ := exists_write hv
    obtain ⟨parts, hparts⟩ := exists_writeAll hvs
    exact ⟨part :: parts, by rw [writeAll, hpart, hparts]; rfl⟩
termination_by structural vs => vs

theorem exists_writeValues : ∀ {fields : List (Scalar × Value)}, Fields.textNamed fields = true →
    ∃ parts, writeValues canonical fields = .ok parts ∧ ∀ p ∈ parts, ∃ t, p.1 = .text t
  | [], _ => ⟨[], rfl, fun p hp => absurd hp List.not_mem_nil⟩
  | (name, v) :: fields, h => by
    obtain ⟨h, hfields⟩ := Bool.and_eq_true_iff.mp h
    obtain ⟨hname, hv⟩ := Bool.and_eq_true_iff.mp h
    obtain ⟨part, hpart⟩ := exists_write hv
    obtain ⟨parts, hparts, hnames⟩ := exists_writeValues hfields
    refine ⟨(name, part) :: parts, by rw [writeValues, hpart, hparts]; rfl, ?_⟩
    exact List.forall_mem_cons.mpr ⟨Value.isText_scalar.mp hname, hnames⟩
termination_by structural fields => fields

end

end Json

end SchemaForge
