import SchemaForge.Proofs.Document.SetTexts
import SchemaForge.Proofs.Document.TextNames
import SchemaForge.Proofs.Text.StringLiteral

/-!
# Objects with one canonical text

A quoted text tells what it quotes and where it ends. So objects whose fields are named by texts have
one canonical text only if they have the same names, with one canonical text under each of them. A
text may share its canonical text with a day or a moment, and with nothing else.

A tidy document is one as it is read from JSON: its fields are named by texts, and no object names
one twice.
-/

namespace SchemaForge

open Json

/-! ## Tidy documents -/

/-- A document whose fields are named by texts, no two of an object by the same one. -/
structure Value.Tidy (v : Value) : Prop where
  textNamed : v.textNamed = true
  distinct : v.distinct = true

namespace Value.Tidy

variable {v : Value} {fields : Fields}

theorem scalar (s : Scalar) : (Value.scalar s).Tidy := ⟨rfl, rfl⟩

theorem of_mem (h : (Value.object fields).Tidy) {n : Scalar} (hmem : (n, v) ∈ fields) : v.Tidy :=
  ⟨(Fields.textNamed_iff.mp h.textNamed _ hmem).2, Fields.distinct_of_mem h.distinct hmem⟩

theorem value (h : (Value.object fields).Tidy) (k : String) : (fields.value k).Tidy :=
  ⟨Fields.textNamed_value h.textNamed k, Fields.distinct_value h.distinct k⟩

theorem walk (h : v.Tidy) {items : List Value} (hw : v.walk = .ok items) : ∀ item ∈ items, item.Tidy :=
  fun item hitem =>
    ⟨Value.textNamed_walk h.textNamed hw item hitem, Value.distinct_walk h.distinct hw item hitem⟩

theorem fieldsIfSet (h : v.Tidy) (hf : v.fieldsIfSet = .ok fields) : (Value.object fields).Tidy := by
  rcases Value.fieldsIfSet_eq_ok hf with rfl | rfl
  · exact ⟨rfl, rfl⟩
  · exact h

theorem put (h : (Value.object fields).Tidy) (k : String) (hv : v.Tidy) :
    (Value.object (fields.put (.text k) v)).Tidy :=
  ⟨Fields.textNamed_put h.textNamed k hv.textNamed, Fields.distinct_put hv.distinct k h.distinct⟩

theorem erase (h : (Value.object fields).Tidy) (k : String) :
    (Value.object (fields.erase k)).Tidy :=
  ⟨Fields.textNamed_erase h.textNamed k, Fields.distinct_erase h.distinct k⟩

theorem filter (h : (Value.object fields).Tidy) (keep : Scalar × Value → Bool) :
    (Value.object (fields.filter keep)).Tidy :=
  ⟨Fields.textNamed_iff.mpr fun f hf =>
      Fields.textNamed_iff.mp h.textNamed f (List.mem_of_mem_filter hf),
    Fields.distinct_filter h.distinct keep⟩

theorem list {items : List Value} (h : ∀ item ∈ items, item.Tidy) : (Value.list items).Tidy :=
  ⟨Value.textNamedAll_iff.mpr fun item hitem => (h item hitem).textNamed,
    Value.distinctAll_iff.mpr fun item hitem => (h item hitem).distinct⟩

end Value.Tidy

/-! ## Names of fields -/

namespace Json

/-- **A quoted text tells what it quotes and where it ends.** -/
theorem quote_append_cancel {asciiOnly : Bool} {s t : String} {rest rest' : List Char}
    (h : (quote asciiOnly s).toList ++ rest = (quote asciiOnly t).toList ++ rest') :
    s = t ∧ rest = rest' := by
  have hread := Script.readLiteral_quote asciiOnly s rest
  rw [h, Script.readLiteral_quote] at hread
  obtain ⟨hunits, hrest⟩ := Prod.ext_iff.mp (Option.some.inj hread)
  exact ⟨String.toList_inj.mp (Script.units_injective hunits.symm), hrest.symm⟩

theorem quote_injective (asciiOnly : Bool) : Function.Injective (quote asciiOnly) := fun _ _ h =>
  (quote_append_cancel (congrArg (String.toList · ++ ([] : List Char)) h)).1

/-- The text of a field tells its name and the text of its value. -/
theorem FieldText.of_quote {style : Style} {field : Scalar × Value} {name part : String}
    (h : FieldText style field (quote style.asciiOnly name ++ ": " ++ part)) :
    nameText field.1 = .ok name ∧ write style field.2 = .ok part := by
  obtain ⟨name', part', hname, hpart, heq⟩ := h
  replace heq := congrArg String.toList heq
  rw [String.toList_append, String.toList_append, String.toList_append, String.toList_append,
    List.append_assoc, List.append_assoc] at heq
  obtain ⟨rfl, hrest⟩ := quote_append_cancel heq
  obtain rfl := String.toList_inj.mp (List.append_cancel_left hrest)
  exact ⟨hname, hpart⟩

/-- **Objects with one text have the same fields, if these are named by texts.** -/
theorem exists_text_field_of_write {style : Style} {fields fields' : Fields} {t k : String}
    (h : write style (.object fields) = .ok t) (h' : write style (.object fields') = .ok t)
    (hnames : ∀ f ∈ fields', ∃ n, f.1 = .text n) {v : Value} (hv : (.text k, v) ∈ fields) :
    ∃ v' part, (.text k, v') ∈ fields' ∧ write style v = .ok part ∧ write style v' = .ok part := by
  obtain ⟨texts, rfl, htexts⟩ := fieldTexts_of_write h
  obtain ⟨texts', heq, htexts'⟩ := fieldTexts_of_write h'
  obtain rfl := texts_eq htexts.written htexts'.written heq
  obtain ⟨t, ht, name, part, hname, hpart, rfl⟩ := htexts.text_of_field _ hv
  obtain rfl : k = name := Except.ok.inj hname
  obtain ⟨⟨name', v'⟩, hf, hft⟩ := htexts'.field_of_text _ ht
  obtain ⟨hname', hpart'⟩ := hft.of_quote
  obtain ⟨n, rfl⟩ : ∃ n, name' = .text n := hnames _ hf
  obtain rfl : n = k := Except.ok.inj hname'
  exact ⟨v', part, hf, hpart, hpart'⟩

theorem ne_quote_of_plain {asciiOnly : Bool} {s t : String} (h : ∀ c ∈ t.toList, isPlain c = true) :
    t ≠ quote asciiOnly s := by
  rintro rfl
  obtain ⟨rest, hrest⟩ := List.head?_eq_some_iff.mp (head?_quote asciiOnly s)
  rw [hrest] at h
  exact absurd (h '"' List.mem_cons_self) (by decide)

/-! ## Texts in a document -/

open Text

/-- A text that no day and no moment is written as. -/
def OwnText (s : String) : Prop := (∀ d : Date, d.iso ≠ s) ∧ ∀ m : Moment, m.iso ≠ s

/-- Days and moments have dashes. -/
theorem ownText_of_dash {s : String} (h : '-' ∉ s.toList) : OwnText s := by
  refine ⟨?_, ?_⟩
  · rintro d rfl
    exact h (dash_mem_date d)
  · rintro m rfl
    exact h (dash_mem_moment m)

/-- A scalar is written plainly, or quoted: a text, a day or a moment. -/
theorem writeScalar_cases {x : Scalar} {t : String} (h : writeScalar canonical x = .ok t) :
    (∀ c ∈ t.toList, isPlain c = true) ∨
      ∃ u, t = quote true u ∧ (x = .text u ∨ (∃ d : Date, d.iso = u) ∨ ∃ m : Moment, m.iso = u) := by
  cases x with
  | text u => exact Or.inr ⟨u, (Except.ok.inj h).symm, Or.inl rfl⟩
  | date d => exact Or.inr ⟨d.iso, (Except.ok.inj h).symm, Or.inr (Or.inl ⟨d, rfl⟩)⟩
  | moment m => exact Or.inr ⟨m.iso, (Except.ok.inj h).symm, Or.inr (Or.inr ⟨m, rfl⟩)⟩
  | null =>
    cases h
    exact Or.inl (List.all_eq_true.mp (by decide))
  | bool b =>
    cases h
    exact Or.inl (List.all_eq_true.mp (by cases b <;> decide))
  | int n =>
    cases h
    exact Or.inl (numberText_intText n).isPlain
  | float x =>
    cases h
    exact Or.inl (numberText_decimals x).isPlain

/-- **A text that is no text of a day or a moment is written for no other value than itself.** -/
theorem eq_text_of_write {v : Value} {s : String} (h : write canonical v = .ok (quote true s))
    (hown : OwnText s) : v = .text s := by
  have hhead := head?_quote true s
  cases v with
  | object fields =>
    rw [(head?_brace_iff h).mpr rfl] at hhead
    cases hhead
  | list items =>
    rw [write] at h
    obtain ⟨parts, -, h⟩ := Outcome.bind_eq_ok.mp h
    rw [← Except.ok.inj h] at hhead
    simp at hhead
  | scalar x =>
    rw [write] at h
    rcases writeScalar_cases h with hplain | ⟨u, hu, rfl | ⟨d, hd⟩ | ⟨m, hm⟩⟩
    · exact absurd rfl (ne_quote_of_plain hplain)
    · rw [quote_injective true hu]
    · exact absurd (hd.trans (quote_injective true hu).symm) (hown.1 d)
    · exact absurd (hm.trans (quote_injective true hu).symm) (hown.2 m)

/-- Only lists are written in brackets. -/
theorem exists_list_of_write {v : Value} {parts : List String}
    (h : write canonical v = .ok ("[" ++ join ", " parts ++ "]")) :
    ∃ items, v = .list items ∧ ∃ parts', writeAll canonical items = .ok parts' ∧
      "[" ++ join ", " parts' ++ "]" = "[" ++ join ", " parts ++ "]" := by
  have hhead : ("[" ++ join ", " parts ++ "]").toList.head? = some '[' := by simp
  cases v with
  | object fields =>
    rw [(head?_brace_iff h).mpr rfl] at hhead
    cases hhead
  | list items =>
    rw [write] at h
    obtain ⟨parts', hparts', h⟩ := Outcome.bind_eq_ok.mp h
    exact ⟨items, rfl, parts', hparts', Except.ok.inj h⟩
  | scalar x =>
    rw [write] at h
    rcases writeScalar_cases h with hplain | ⟨u, hu, -⟩
    · exact absurd (hplain '[' (List.mem_of_mem_head? hhead)) (by decide)
    · rw [hu, head?_quote] at hhead
      cases hhead

/-- Items that are written as texts of their own are these texts. -/
theorem eq_texts_of_writeAll : ∀ {names : List String} {items : List Value} {parts : List String},
    (∀ k ∈ names, OwnText k) → writeAll canonical (names.map .text) = .ok parts →
    writeAll canonical items = .ok parts → items = names.map .text
  | [], [], _, _, _, _ => rfl
  | [], v :: items, _, _, h, h' => by
    cases h
    obtain ⟨part, -, h'⟩ := Outcome.bind_eq_ok.mp h'
    obtain ⟨parts, -, h'⟩ := Outcome.bind_eq_ok.mp h'
    cases h'
  | k :: names, [], _, _, h, h' => by
    cases h'
    obtain ⟨part, -, h⟩ := Outcome.bind_eq_ok.mp h
    obtain ⟨parts, -, h⟩ := Outcome.bind_eq_ok.mp h
    cases h
  | k :: names, v :: items, _, hown, h, h' => by
    obtain ⟨hk, hnames⟩ := List.forall_mem_cons.mp hown
    obtain ⟨part, hpart, h⟩ := Outcome.bind_eq_ok.mp h
    obtain ⟨parts, hparts, h⟩ := Outcome.bind_eq_ok.mp h
    obtain ⟨part', hpart', h'⟩ := Outcome.bind_eq_ok.mp h'
    obtain ⟨parts', hparts', h'⟩ := Outcome.bind_eq_ok.mp h'
    cases h
    cases h'
    cases hpart
    rw [eq_text_of_write hpart' hk, eq_texts_of_writeAll hnames hparts hparts']
    rfl

end Json

namespace SameCanonical

variable {fields fields' : Fields}

/-- Only objects have the canonical text of an object. -/
theorem exists_object {w : Value} (h : SameCanonical (.object fields) w) :
    ∃ fields', w = .object fields' := by
  obtain ⟨t, ht, ht'⟩ := h
  have hobject := (head?_brace_iff ht').mp ((head?_brace_iff ht).mpr rfl)
  cases w with
  | object fields' => exact ⟨fields', rfl⟩
  | scalar s => cases s <;> cases hobject
  | list items => cases hobject

/-- **What a tidy object has under a name, a tidy object with its canonical text has too.** -/
theorem exists_lookup (h : SameCanonical (.object fields) (.object fields'))
    (hfields : (Value.object fields).Tidy) (hfields' : (Value.object fields').Tidy) {n : Scalar}
    {v : Value} (hv : Fields.lookup n fields = some v) :
    ∃ v', Fields.lookup n fields' = some v' ∧ SameCanonical v v' := by
  obtain ⟨t, ht, ht'⟩ := h
  obtain ⟨k, hmem, hk⟩ := Fields.mem_of_lookup hv
  obtain ⟨⟨name, rfl⟩, -⟩ := Fields.textNamed_iff.mp hfields.textNamed _ hmem
  obtain ⟨v', part, hmem', hpart, hpart'⟩ := exists_text_field_of_write ht ht'
    (fun f hf => (Fields.textNamed_iff.mp hfields'.textNamed f hf).1) hmem
  exact ⟨v', Fields.lookup_of_mem (Fields.distinct_iff.mp hfields'.distinct).2 hmem' hk, part, hpart,
    hpart'⟩

/-- **A list of texts that no day and no moment is written as has its canonical text to itself.** -/
theorem eq_texts {names : List String} {w : Value} (h : SameCanonical (.list (names.map .text)) w)
    (hown : ∀ k ∈ names, OwnText k) : w = .list (names.map .text) := by
  obtain ⟨t, ht, ht'⟩ := h
  rw [write] at ht
  obtain ⟨parts, hparts, ht⟩ := Outcome.bind_eq_ok.mp ht
  rw [← Except.ok.inj ht] at ht'
  obtain ⟨items, rfl, parts', hparts', heq⟩ := exists_list_of_write ht'
  obtain rfl := texts_eq (written_writeAll hparts') (written_writeAll hparts) heq
  rw [eq_texts_of_writeAll hown hparts hparts']

/-- Tidy objects with one canonical text have the same keywords, and one canonical text under each of
them. -/
theorem exists_get? (h : SameCanonical (.object fields) (.object fields'))
    (hfields : (Value.object fields).Tidy) (hfields' : (Value.object fields').Tidy) {k : String}
    {v : Value} (hv : fields.get? k = some v) :
    ∃ v', fields'.get? k = some v' ∧ SameCanonical v v' := by
  rw [Fields.get?_eq_lookup] at hv ⊢
  exact h.exists_lookup hfields hfields' hv

end SameCanonical

end SchemaForge
