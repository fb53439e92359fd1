import SchemaForge.Naming.Identifier

/-!
# Words of ASCII letters and digits

The words of a text are not empty and hold nothing but ASCII letters and digits, and changing the
case of such a character gives another one. A text that counts as one of a class up to its line end
is one, or is one with a line feed after it.
-/

namespace SchemaForge.Text

/-! ## Characters -/

/-- A letter or digit is at most the last capital letter, small letter or digit. -/
theorem toNat_lt_of_isAlphanum {c : Char} (h : c.isAlphanum = true) : c.toNat < 128 := by
  have hlt : ∀ last : Char, last.toNat < 128 → c.val ≤ last.val → c.toNat < 128 :=
    fun last hlast hle => Nat.lt_of_le_of_lt (UInt32.le_iff_toNat_le.mp hle) hlast
  rcases Bool.or_eq_true_iff.mp h with halpha | hdigit
  · rcases Bool.or_eq_true_iff.mp halpha with hupper | hlower
    · exact hlt 'Z' (by decide) (of_decide_eq_true hupper).2
    · exact hlt 'z' (by decide) (of_decide_eq_true (Bool.and_eq_true_iff.mp hlower).2)
  · exact hlt '9' (by decide) (of_decide_eq_true (Bool.and_eq_true_iff.mp hdigit).2)

/-- What holds of all characters of ASCII can be looked up. -/
theorem of_toNat_lt {P : Char → Bool}
    (hall : (List.range 128).all (fun n => P (Char.ofNat n)) = true) {c : Char}
    (h : c.toNat < 128) : P c = true := by
  have hc := List.all_eq_true.mp hall c.toNat (List.mem_range.mpr h)
  rwa [Char.ofNat_toNat] at hc

/-- What holds of all characters of ASCII holds of ASCII letters and digits. -/
theorem of_isAlphanum {P : Char → Bool}
    (hall : (List.range 128).all (fun n => P (Char.ofNat n)) = true) {c : Char}
    (h : c.isAlphanum = true) : P c = true :=
  of_toNat_lt hall (toNat_lt_of_isAlphanum h)

theorem isAlphanum_toUpper {c : Char} (h : c.isAlphanum = true) : c.toUpper.isAlphanum = true := by
  have hall := of_isAlphanum (P := fun c => !c.isAlphanum || c.toUpper.isAlphanum) (by decide) h
  simpa [h] using hall

theorem isAlphanum_toLower {c : Char} (h : c.isAlphanum = true) : c.toLower.isAlphanum = true := by
  have hall := of_isAlphanum (P := fun c => !c.isAlphanum || c.toLower.isAlphanum) (by decide) h
  simpa [h] using hall

theorem isAlpha_of_not_isDigit {c : Char} (h : c.isAlphanum = true) (hd : c.isDigit = false) :
    c.isAlpha = true := by
  simpa [Char.isAlphanum, hd] using h

/-! ## Words -/

theorem words_separator {p : Char → Bool} {c : Char} (hc : p c = true) (cs : List Char) :
    words p (c :: cs) = words p cs := by
  rw [words.eq_def]
  exact if_pos hc

/-- A character that separates no words is a word of its own or starts the first word after it. -/
theorem words_cons {p : Char → Bool} {c : Char} (hc : p c = false) (cs : List Char) :
    words p (c :: cs) = [c] :: words p cs ∨
      ∃ w ws, words p cs = w :: ws ∧ words p (c :: cs) = (c :: w) :: ws := by
  rw [words.eq_def]
  dsimp only
  rw [hc, if_neg Bool.false_ne_true]
  split
  · rename_i d rest w ws hwords
    rw [hwords]
    split
    · exact Or.inl rfl
    · exact Or.inr ⟨w, ws, rfl, rfl⟩
  · exact Or.inl rfl

/-- A word is not empty, and no character in it separates words. -/
theorem words_spec {p : Char → Bool} : ∀ {cs w : List Char}, w ∈ words p cs →
    w ≠ [] ∧ ∀ c ∈ w, p c = false
  | [], w, h => by simp [words] at h
  | c :: cs, w, h => by
    have ih : ∀ w ∈ words p cs, w ≠ [] ∧ ∀ c ∈ w, p c = false := fun w hw => words_spec hw
    cases hc : p c with
    | true =>
      rw [words_separator hc] at h
      exact ih w h
    | false =>
      rcases words_cons hc cs with hwords | ⟨v, vs, hcs, hwords⟩
      · rw [hwords, List.mem_cons] at h
        rcases h with rfl | h
        · exact ⟨List.cons_ne_nil _ _, by simpa using hc⟩
        · exact ih w h
      · rw [hcs] at ih
        rw [hwords, List.mem_cons] at h
        rcases h with rfl | h
        · have hv := (ih v List.mem_cons_self).2
          exact ⟨List.cons_ne_nil _ _, List.forall_mem_cons.mpr ⟨hc, hv⟩⟩
        · exact ih w (List.mem_cons_of_mem _ h)

/-- The first word starts where the first character of words stands. -/
theorem head_words {p : Char → Bool} (cs : List Char) :
    (words p cs).head?.bind List.head? = cs.find? fun c => !p c := by
  induction cs with
  | nil => rfl
  | cons c cs ih =>
    cases hc : p c with
    | true =>
      rw [words_separator hc, ih, List.find?_cons_of_neg]
      simp [hc]
    | false =>
      rw [List.find?_cons_of_pos (by simp [hc])]
      rcases words_cons hc cs with hwords | ⟨w, ws, -, hwords⟩
      · rw [hwords]
        rfl
      · rw [hwords]
        rfl

end SchemaForge.Text

namespace SchemaForge.Naming

theorem asciiWords_spec {cs w : List Char} (h : w ∈ asciiWords cs) :
    w ≠ [] ∧ ∀ c ∈ w, c.isAlphanum = true := by
  obtain ⟨hne, hall⟩ := Text.words_spec h
  exact ⟨hne, fun c hc => by simpa using hall c hc⟩

/-- A text of a class with a line feed after it. -/
def TrailsLineFeed (p : List Char → Bool) (cs : List Char) : Prop :=
  ∃ before, p before = true ∧ cs = before ++ ['\n']

theorem upToLineEnd_iff {p : List Char → Bool} {cs : List Char} :
    upToLineEnd p cs = true ↔ p cs = true ∨ TrailsLineFeed p cs := by
  rw [upToLineEnd, Bool.or_eq_true, Bool.and_eq_true, beq_iff_eq, List.getLast?_eq_some_iff]
  refine or_congr_right ⟨?_, ?_⟩
  · rintro ⟨⟨before, hname⟩, hplain⟩
    rw [hname, List.dropLast_concat] at hplain
    exact ⟨before, hplain, hname⟩
  · rintro ⟨before, hplain, hname⟩
    rw [hname, List.dropLast_concat]
    exact ⟨⟨before, rfl⟩, hplain⟩

end SchemaForge.Naming
