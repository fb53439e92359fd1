import SchemaForge.Compile.Visible
import SchemaForge.Proofs.Document.Distinct
import SchemaForge.Proofs.Document.JsonText
import SchemaForge.Proofs.Number.Shortest

/-!
# What a canonical text tells of a document

Null, false, zero and what is empty count as not set, and each of them has a text of its own. So the
canonical text of a document tells whether it is set, and the canonical text of a definition whether
it is visible.
-/

namespace SchemaForge

/-- Two documents with one canonical text. -/
def SameCanonical (v w : Value) : Prop :=
  ∃ t, Json.write Json.canonical v = .ok t ∧ Json.write Json.canonical w = .ok t

namespace Json

open Text

/-! ## Digits -/

theorem ofDigitChars_zeros : ∀ {digits : List Char}, (∀ c ∈ digits, c = '0') →
    Nat.ofDigitChars 10 digits 0 = 0
  | [], _ => rfl
  | c :: digits, h => by
    rw [Nat.ofDigitChars_cons, h c List.mem_cons_self]
    exact ofDigitChars_zeros fun d hd => h d (List.mem_cons_of_mem _ hd)

/-- A number other than zero has a digit other than zero. -/
theorem exists_digit {n : Nat} (hn : n ≠ 0) : ∃ c ∈ Nat.toDigits 10 n, c ≠ '0' := by
  by_contra hall
  push Not at hall
  exact hn (Nat.ofDigitChars_ten_toDigits.symm.trans (ofDigitChars_zeros hall))

/-- A text with a digit other than zero. -/
def Counts (t : List Char) : Prop := ∃ c ∈ t, c.isDigit = true ∧ c ≠ '0'

/-- A number other than zero is written with a digit that counts. -/
theorem counts_toDigits {n : Nat} (hn : n ≠ 0) : Counts (Nat.toDigits 10 n) := by
  obtain ⟨c, hc, hne⟩ := exists_digit hn
  exact ⟨c, hc, Nat.isDigit_of_mem_toDigits (by decide) (by decide) hc, hne⟩

/-- More text does not take digits away. -/
theorem Counts.mono {s t : List Char} (h : Counts s) (hsub : s ⊆ t) : Counts t := by
  obtain ⟨c, hc, hdigit⟩ := h
  exact ⟨c, hsub hc, hdigit⟩

/-- No digit is lost by putting the point in its place. -/
theorem subset_positional (digits : List Char) (point : Int) :
    digits ⊆ DecimalStyle.positional digits point := by
  unfold DecimalStyle.positional
  intro c hc
  split
  · simp [hc]
  split
  · simp [hc]
  · rw [← List.take_append_drop point.toNat digits] at hc
    rcases List.mem_append.mp hc with hc | hc
    · exact List.mem_append_left _ hc
    · exact List.mem_append_right _ (List.mem_cons_of_mem _ hc)

theorem subset_scientific (style : DecimalStyle) (digits : List Char) (point : Int) :
    digits ⊆ style.scientific digits point := by
  unfold DecimalStyle.scientific
  refine List.subset_append_of_subset_left _ fun c hc => ?_
  split
  · cases hc
  · exact hc
  · rcases List.mem_cons.mp hc with rfl | hc
    · exact List.mem_cons_self
    · exact List.mem_cons_of_mem _ (List.mem_cons_of_mem _ hc)

/-- **A number other than zero has a text that counts**, in either way to write it. -/
theorem counts_decimals {negative : Bool} {mantissa : Nat} (h : mantissa ≠ 0) (exponent : Int) :
    Counts (decimals.write (.finite negative mantissa exponent)).toList := by
  have hdigits := counts_toDigits (Double.shortest_ne_zero h exponent)
  unfold DecimalStyle.write
  dsimp only
  rw [String.toList_append, String.toList_ofList]
  refine Counts.mono ?_ (List.subset_append_right _ _)
  split
  · exact hdigits.mono (subset_positional _ _)
  · exact hdigits.mono (subset_scientific _ _ _)

theorem counts_intText {n : Int} (h : n ≠ 0) : Counts (intText n).toList := by
  unfold intText
  rw [String.toList_append, String.toList_ofList]
  exact (counts_toDigits (by omega)).mono (List.subset_append_right _ _)

/-! ## Texts of what is not set -/

/-- The texts of what is not set. -/
def unsetTexts : List String := ["null", "false", "0", "0.0", "-0.0", "\"\"", "[]", "\x7b\x7d"]

/-- None of the texts of what is not set has a digit that counts. -/
theorem not_mem_of_counts {t : String} (h : Counts t.toList) : t ∉ unsetTexts := by
  have hall : unsetTexts.all (fun t => t.toList.all fun c => !(c.isDigit && c != '0')) = true := by
    decide
  intro hmem
  obtain ⟨c, hc, hdigit, hne⟩ := h
  have hnot := List.all_eq_true.mp (List.all_eq_true.mp hall t hmem) c hc
  simp [hdigit, hne] at hnot

/-- Quotes and brackets stand for something that is not set only if nothing is between them. -/
theorem eq_nil_of_enclosed {t : String} {first last : Char} {inner : List Char}
    (ht : t.toList = first :: (inner ++ [last])) (hfirst : first ∈ ['"', '[', '\x7b'])
    (hmem : t ∈ unsetTexts) : inner = [] := by
  have hall : unsetTexts.all (fun t =>
      t.toList.head?.all (fun c => !(['"', '[', '\x7b'].contains c)) || t.toList.length == 2) = true := by
    decide
  have hlength := List.all_eq_true.mp hall t hmem
  rw [ht, List.head?_cons, Option.all_some, List.contains_iff_mem.mpr hfirst, Bool.not_true,
    Bool.false_or, beq_iff_eq, List.length_cons, List.length_append, List.length_singleton] at hlength
  exact List.length_eq_zero_iff.mp (by omega)

theorem escape_ne_nil {c : Char} {t : List Char} (h : Escape c t) : t ≠ [] := by
  cases h <;> simp [Quoted.unitEscape]

/-- Of quoted texts only the empty one is not set. -/
theorem quote_mem_iff {asciiOnly : Bool} {s : String} :
    quote asciiOnly s ∈ unsetTexts ↔ s = "" := by
  constructor
  · intro hmem
    have htext : (quote asciiOnly s).toList =
        '"' :: (Quoted.encodeChars asciiOnly s.toList ++ ['"']) := by
      rw [quote, String.toList_ofList, Quoted.encode]
    have hnil := eq_nil_of_enclosed htext (by decide) hmem
    cases hs : s.toList with
    | nil => exact String.toList_inj.mp hs
    | cons c cs =>
      rw [hs, Quoted.encodeChars, List.append_eq_nil_iff] at hnil
      exact absurd hnil.1 (escape_ne_nil (escape_spec asciiOnly c))
  · rintro rfl
    cases asciiOnly <;> decide

theorem commas_eq_nil {parts : List String} (h : ∀ p ∈ parts, Written p.toList)
    (hnil : commas (parts.map String.toList) = []) : parts = [] := by
  cases parts with
  | nil => rfl
  | cons p parts =>
    obtain ⟨rest, hrest, -⟩ := exists_commas_cons (h p List.mem_cons_self).passes
      (parts.map String.toList)
    rw [List.map_cons, hrest, List.append_eq_nil_iff] at hnil
    exact absurd hnil.1 (h p List.mem_cons_self).ne_nil

/-- Of lists only the empty one is. -/
theorem brackets_mem_iff {parts : List String} (h : ∀ p ∈ parts, Written p.toList) :
    "[" ++ join ", " parts ++ "]" ∈ unsetTexts ↔ parts = [] := by
  constructor
  · intro hmem
    have htext : ("[" ++ join ", " parts ++ "]").toList =
        '[' :: (commas (parts.map String.toList) ++ [']']) := by
      rw [String.toList_append, String.toList_append, toList_join]
      rfl
    exact commas_eq_nil h (eq_nil_of_enclosed htext (by decide) hmem)
  · rintro rfl
    decide

/-- Of objects only the one without fields is. -/
theorem braces_mem_iff {parts : List String} (h : ∀ p ∈ parts, Written p.toList) :
    "\x7b" ++ join ", " parts ++ "\x7d" ∈ unsetTexts ↔ parts = [] := by
  constructor
  · intro hmem
    have htext : ("\x7b" ++ join ", " parts ++ "\x7d").toList =
        '\x7b' :: (commas (parts.map String.toList) ++ ['\x7d']) := by
      rw [String.toList_append, String.toList_append, toList_join]
      rfl
    exact commas_eq_nil h (eq_nil_of_enclosed htext (by decide) hmem)
  · rintro rfl
    decide

/-! ## Texts of documents -/

theorem quote_not_mem {asciiOnly : Bool} {s : String} (h : '-' ∈ s.toList) :
    quote asciiOnly s ∉ unsetTexts := by
  rw [quote_mem_iff]
  rintro rfl
  cases h

theorem dash_mem_date (d : Date) : '-' ∈ d.iso.toList := by
  have hdash : '-' ∈ "-".toList := by decide
  simp only [Date.iso, String.toList_append, List.mem_append, hdash, or_true, true_or]

theorem dash_mem_moment (m : Moment) : '-' ∈ m.iso.toList := by
  simp only [Moment.iso, String.toList_append, List.mem_append, dash_mem_date m.date, true_or]

theorem float_mem_iff {x : Double} :
    decimals.write x ∈ unsetTexts ↔ (Value.float x).isSet = false := by
  cases x with
  | nan => decide
  | infinite negative => cases negative <;> decide
  | finite negative mantissa exponent =>
    by_cases h : mantissa = 0
    · subst h
      cases negative <;> simp [Value.isSet, DecimalStyle.write, Double.shortest, unsetTexts] <;> decide
    · simp [Value.isSet, h, not_mem_of_counts (counts_decimals h exponent)]

/-- The text of a scalar tells whether it is set. -/
theorem writeScalar_mem_iff {s : Scalar} {t : String} (h : writeScalar canonical s = .ok t) :
    t ∈ unsetTexts ↔ (Value.scalar s).isSet = false := by
  cases s with
  | null =>
    cases h
    decide
  | bool b =>
    cases h
    cases b <;> decide
  | int n =>
    cases h
    by_cases hn : n = 0
    · subst hn
      decide
    · simp [Value.isSet, hn, not_mem_of_counts (counts_intText hn)]
  | float x =>
    cases h
    exact float_mem_iff
  | text s =>
    cases h
    rw [quote_mem_iff]
    simp [Value.isSet]
  | date d =>
    obtain rfl : quote true d.iso = t := Except.ok.inj h
    simp [Value.isSet, quote_not_mem (dash_mem_date d)]
  | moment m =>
    obtain rfl : quote true m.iso = t := Except.ok.inj h
    simp [Value.isSet, quote_not_mem (dash_mem_moment m)]

/-- **The canonical text of a document tells whether it is set.** -/
theorem mem_unsetTexts_iff {v : Value} {t : String} (h : write canonical v = .ok t) :
    t ∈ unsetTexts ↔ v.isSet = false := by
  cases v with
  | scalar s =>
    rw [write] at h
    exact writeScalar_mem_iff h
  | list items =>
    rw [write] at h
    obtain ⟨parts, hparts, h⟩ := Outcome.bind_eq_ok.mp h
    cases h
    rw [brackets_mem_iff (written_writeAll hparts)]
    cases items with
    | nil =>
      cases hparts
      simp [Value.isSet]
    | cons v vs =>
      rw [writeAll] at hparts
      obtain ⟨part, -, hparts⟩ := Outcome.bind_eq_ok.mp hparts
      obtain ⟨rest, -, hparts⟩ := Outcome.bind_eq_ok.mp hparts
      cases hparts
      simp [Value.isSet]
  | object fields =>
    obtain ⟨texts, rfl, htexts⟩ := fieldTexts_of_write h
    rw [braces_mem_iff htexts.written]
    cases fields with
    | nil =>
      have hnil : texts = [] := by
        rw [List.eq_nil_iff_forall_not_mem]
        intro t ht
        obtain ⟨f, hf, -⟩ := htexts.field_of_text t ht
        cases hf
      simp [Value.isSet, hnil]
    | cons f fields =>
      obtain ⟨t, ht, -⟩ := htexts.text_of_field f List.mem_cons_self
      have hne : texts ≠ [] := List.ne_nil_of_mem ht
      simp [Value.isSet, hne]

/-- A character that a number may start with. -/
theorem ne_brace_of_number {t : List Char} (h : NumberText t) : t.head? ≠ some '\x7b' := by
  intro hhead
  obtain ⟨rest, rfl⟩ : ∃ rest, t = '\x7b' :: rest := List.head?_eq_some_iff.mp hhead
  rcases h.2 with hword | hnumeric
  · simp at hword
  · exact absurd (hnumeric _ List.mem_cons_self) (by decide)

theorem head?_quote (asciiOnly : Bool) (s : String) : (quote asciiOnly s).toList.head? = some '"' := by
  rw [quote, String.toList_ofList, Quoted.encode, List.head?_cons]

/-- Only the text of an object starts with a brace. -/
theorem head?_brace_iff {v : Value} {t : String} (h : write canonical v = .ok t) :
    t.toList.head? = some '\x7b' ↔ v.isObject = true := by
  cases v with
  | object fields =>
    obtain ⟨texts, rfl, -⟩ := fieldTexts_of_write h
    simp [Value.isObject]
  | list items =>
    rw [write] at h
    obtain ⟨parts, hparts, h⟩ := Outcome.bind_eq_ok.mp h
    cases h
    simp [Value.isObject]
  | scalar s =>
    refine iff_of_false ?_ (by simp [Value.isObject])
    rw [write] at h
    cases s with
    | null =>
      cases h
      decide
    | bool b =>
      cases h
      cases b <;> decide
    | int n =>
      cases h
      exact ne_brace_of_number (numberText_intText n)
    | float x =>
      cases h
      exact ne_brace_of_number (numberText_decimals x)
    | text s =>
      cases h
      rw [head?_quote]
      decide
    | date d =>
      obtain rfl : quote true d.iso = t := Except.ok.inj h
      rw [head?_quote]
      decide
    | moment m =>
      obtain rfl : quote true m.iso = t := Except.ok.inj h
      rw [head?_quote]
      decide

end Json

namespace SameCanonical

variable {v w u : Value}

theorem symm (h : SameCanonical v w) : SameCanonical w v := by
  obtain ⟨t, hv, hw⟩ := h
  exact ⟨t, hw, hv⟩

theorem trans (h : SameCanonical v w) (h' : SameCanonical w u) : SameCanonical v u := by
  obtain ⟨t, hv, hw⟩ := h
  obtain ⟨t', hw', hu⟩ := h'
  rw [hw] at hw'
  cases hw'
  exact ⟨t, hv, hu⟩

/-- **Documents with one canonical text are set together or not at all.** -/
theorem isSet (h : SameCanonical v w) : v.isSet = w.isSet := by
  obtain ⟨t, hv, hw⟩ := h
  have hiff := (Json.mem_unsetTexts_iff hv).symm.trans (Json.mem_unsetTexts_iff hw)
  cases hset : v.isSet with
  | false => exact (hiff.mp hset).symm
  | true =>
    cases hset' : w.isSet with
    | true => rfl
    | false =>
      rw [hiff.mpr hset'] at hset
      cases hset

/-- Objects with one canonical text agree on what is set under a word. -/
theorem isSet_value {fields fields' : Fields} (h : SameCanonical (.object fields) (.object fields'))
    (hfields : Fields.distinct fields = true) (hfields' : Fields.distinct fields' = true)
    {k : String} (hk : Json.isWord k = true) :
    (fields.value k).isSet = (fields'.value k).isSet := by
  obtain ⟨t, hv, hw⟩ := h
  cases hget : fields.get? k with
  | some v =>
    obtain ⟨v', part, hmem, hpart, hpart'⟩ :=
      Json.exists_field_of_write hv hw hk (Fields.mem_of_get? hget)
    rw [Fields.value_of_get? hget,
      Fields.value_of_get? (Fields.get?_of_mem (Fields.distinct_iff.mp hfields').2 hmem)]
    exact isSet ⟨part, hpart, hpart'⟩
  | none =>
    cases hget' : fields'.get? k with
    | none => rw [Fields.value, Fields.value, hget, hget']
    | some v' =>
      obtain ⟨v, part, hmem, -⟩ := Json.exists_field_of_write hw hv hk (Fields.mem_of_get? hget')
      rw [Fields.get?_of_mem (Fields.distinct_iff.mp hfields).2 hmem] at hget
      cases hget

/-- **Definitions with one canonical text are visible together or not at all.** -/
theorem shows (h : SameCanonical v w) (hv : v.distinct = true) (hw : w.distinct = true)
    (visibility : Visibility) : visibility.shows v = visibility.shows w := by
  obtain ⟨t, htv, htw⟩ := h
  have hobject := (Json.head?_brace_iff htv).symm.trans (Json.head?_brace_iff htw)
  cases v with
  | object fields =>
    cases w with
    | object fields' =>
      have hset : ∀ {k : String}, Json.isWord k = true →
          (Fields.value fields k).isSet = (Fields.value fields' k).isSet :=
        isSet_value ⟨t, htv, htw⟩ hv hw
      cases visibility with
      | all => rfl
      | request => simp only [Visibility.shows, hset (k := "readOnly") (by decide)]
      | response => simp only [Visibility.shows, hset (k := "writeOnly") (by decide)]
    | scalar s => exact absurd (hobject.mp rfl) (by simp [Value.isObject])
    | list vs => exact absurd (hobject.mp rfl) (by simp [Value.isObject])
  | scalar s =>
    cases w with
    | object fields' => exact absurd (hobject.mpr rfl) (by simp [Value.isObject])
    | scalar s' => rfl
    | list vs' => rfl
  | list vs =>
    cases w with
    | object fields' => exact absurd (hobject.mpr rfl) (by simp [Value.isObject])
    | scalar s' => rfl
    | list vs' => rfl

end SameCanonical

end SchemaForge
