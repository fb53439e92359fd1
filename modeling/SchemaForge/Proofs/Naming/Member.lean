import SchemaForge.Naming.Member
import SchemaForge.Proofs.Naming.Allocation
import SchemaForge.Proofs.Text.Words

/-!
# What enum members are called

Whatever an enum value is, the name that it asks for is an identifier of ASCII characters: a text
keeps only its ASCII letters and digits, a number also low lines, and where this would start with a
digit or leave nothing, `Value`, `Empty` or the name of a sort direction stands in front. A number
after it, as in the names allocated for values that ask for the same name, leaves it one.
-/

namespace SchemaForge.Naming

open Text

/-! ## Identifiers -/

/-- A character inside the name of a member. -/
def isMemberChar (c : Char) : Bool := c.isAlphanum || c == '_'

/-- An ASCII letter, followed by ASCII letters, digits and low lines. -/
def isMemberName : List Char → Bool
  | [] => false
  | c :: cs => c.isAlpha && cs.all isMemberChar

theorem isMemberChar_of_isAlphanum {c : Char} (h : c.isAlphanum = true) :
    isMemberChar c = true := by
  rw [isMemberChar, h, Bool.true_or]

theorem isMemberName_cons {c : Char} {cs : List Char} :
    isMemberName (c :: cs) = true ↔ c.isAlpha = true ∧ ∀ d ∈ cs, isMemberChar d = true := by
  rw [isMemberName, Bool.and_eq_true, List.all_eq_true]

/-- More characters of names leave a name one. -/
theorem isMemberName_append {cs ds : List Char} (h : isMemberName cs = true)
    (hds : ∀ d ∈ ds, isMemberChar d = true) : isMemberName (cs ++ ds) = true := by
  cases cs with
  | nil => cases h
  | cons c cs =>
    obtain ⟨hc, hcs⟩ := isMemberName_cons.mp h
    exact isMemberName_cons.mpr ⟨hc, List.forall_mem_append.mpr ⟨hcs, hds⟩⟩

/-- **A number after a name leaves it a name.** -/
theorem isMemberName_numbered {candidate : String} (h : isMemberName candidate.toList = true)
    (k : Nat) : isMemberName (numbered candidate k).toList = true := by
  rw [numbered, String.toList_append, String.toList_ofList]
  refine isMemberName_append h fun d hd => isMemberChar_of_isAlphanum ?_
  have hdigit : d.isDigit = true := Nat.isDigit_of_mem_toDigits (by decide) (by decide) hd
  rw [Char.isAlphanum, hdigit, Bool.or_true]

theorem isMemberName_freeName {candidate : String} (h : isMemberName candidate.toList = true)
    (used : List String) : isMemberName (freeName candidate used).toList = true := by
  rcases freeName_cases candidate used with ⟨-, heq⟩ | ⟨-, k, heq, -⟩
  · rwa [heq]
  · rw [heq]
    exact isMemberName_numbered h k

/-! ## Numbers -/

theorem mem_collapse {p : Char → Bool} {mark : Char} :
    ∀ {cs : List Char}, ∀ c ∈ collapse p mark cs, c = mark ∨ p c = false
  | [], c, h => by simp [collapse] at h
  | [d], c, h => by
    cases hd : p d with
    | true => exact Or.inl (by simpa [collapse, hd] using h)
    | false =>
      obtain rfl : c = d := by simpa [collapse, hd] using h
      exact Or.inr hd
  | d :: e :: cs, c, h => by
    have ih : ∀ c ∈ collapse p mark (e :: cs), c = mark ∨ p c = false := mem_collapse
    rw [collapse] at h
    split at h
    -- of a run, only the last character gives a mark
    · split at h
      · exact ih c h
      · rcases List.mem_cons.mp h with rfl | h
        · exact Or.inl rfl
        · exact ih c h
    · rename_i hd
      rcases List.mem_cons.mp h with rfl | h
      · exact Or.inr (by simpa using hd)
      · exact ih c h

/-- What is left of a trimmed text stood in it. -/
theorem trim_subset (p : Char → Bool) (cs : List Char) : trim p cs ⊆ cs := by
  intro c hc
  rw [trim, trimEnd, List.mem_reverse] at hc
  have hstart : c ∈ trimStart p cs := List.mem_reverse.mp ((List.dropWhile_sublist _).subset hc)
  exact (List.dropWhile_sublist _).subset hstart

theorem isMemberChar_lowLined (cs : List Char) : ∀ c ∈ lowLined cs, isMemberChar c = true := by
  intro c hc
  rcases mem_collapse c (trim_subset _ _ hc) with rfl | hword
  · rfl
  · exact isMemberChar_of_isAlphanum (by simpa using hword)

/-- The endings for sort directions. -/
theorem splitSign_snd (cs : List Char) : (splitSign cs).2 ∈ ["", "Asc", "Desc"] := by
  unfold splitSign
  split <;> simp

theorem isMemberChar_suffix (cs : List Char) :
    ∀ c ∈ (splitSign cs).2.toList, isMemberChar c = true := by
  have hall : (["", "Asc", "Desc"].all fun s => s.toList.all isMemberChar) = true := by decide
  exact List.all_eq_true.mp (List.all_eq_true.mp hall _ (splitSign_snd cs))

theorem isMemberName_numeral (body : List Char) {suffix : String}
    (h : ∀ c ∈ suffix.toList, isMemberChar c = true) :
    isMemberName (numeral body suffix).toList = true := by
  simp only [numeral, String.toList_append, String.toList_ofList]
  exact isMemberName_append (isMemberName_append (by decide) (isMemberChar_lowLined body)) h

theorem isMemberName_textNumeral (raw : String) : isMemberName (textNumeral raw).toList = true :=
  isMemberName_numeral _ (isMemberChar_suffix _)

/-! ## Texts -/

theorem isAlphanum_titleWord {w : List Char} (h : ∀ c ∈ w, c.isAlphanum = true) :
    ∀ c ∈ titleWord w, c.isAlphanum = true := by
  cases w with
  | nil => exact h
  | cons c cs =>
    obtain ⟨hc, hcs⟩ := List.forall_mem_cons.mp h
    refine List.forall_mem_cons.mpr ⟨isAlphanum_toUpper hc, List.forall_mem_map.mpr fun d hd => ?_⟩
    exact isAlphanum_toLower (hcs d hd)

theorem isAlphanum_titleWords (body : List Char) :
    ∀ c ∈ (asciiWords body).flatMap titleWord, c.isAlphanum = true := by
  intro c hc
  obtain ⟨w, hw, hc⟩ := List.mem_flatMap.mp hc
  exact isAlphanum_titleWord (asciiWords_spec hw).2 c hc

/-- **The name that a text asks for is an identifier.** -/
theorem isMemberName_textCandidate (raw : String) :
    isMemberName (textCandidate raw).toList = true := by
  unfold textCandidate
  split
  · decide
  rw [String.toList_append, String.toList_ofList]
  have hsuffix := isMemberChar_suffix raw.toList
  have hwords := isAlphanum_titleWords (splitSign raw.toList).1
  cases hbase : (asciiWords (splitSign raw.toList).1).flatMap titleWord with
  | nil =>
    -- nothing is left of the text but, perhaps, its sign
    have hall : (["", "Asc", "Desc"].all fun suffix =>
        isMemberName ((if suffix == "" then "Value".toList else []) ++ suffix.toList)) = true := by
      decide
    exact List.all_eq_true.mp hall _ (splitSign_snd raw.toList)
  | cons c cs =>
    rw [hbase] at hwords
    obtain ⟨hc, hcs⟩ := List.forall_mem_cons.mp hwords
    have hchars : ∀ d ∈ c :: cs, isMemberChar d = true := fun d hd =>
      isMemberChar_of_isAlphanum (hwords d hd)
    refine isMemberName_append ?_ hsuffix
    dsimp only
    split
    · exact isMemberName_append (by decide) hchars
    · rename_i hdigit
      have halpha := isAlpha_of_not_isDigit hc (by simpa using hdigit)
      exact isMemberName_cons.mpr ⟨halpha, fun d hd => hchars d (List.mem_cons_of_mem _ hd)⟩

/-! ## Values -/

/-- **The name that any enum value asks for is an identifier.** -/
theorem isMemberName_memberCandidate (v : Value) :
    isMemberName (memberCandidate v).toList = true := by
  have hnone : ∀ c ∈ "".toList, isMemberChar c = true := fun _ h => by simp at h
  unfold memberCandidate
  split
  · exact isMemberName_numeral _ hnone
  · exact isMemberName_numeral _ hnone
  · exact isMemberName_textCandidate _
  · split
    · exact isMemberName_textNumeral _
    · exact isMemberName_textCandidate _
  · exact isMemberName_textCandidate _

end SchemaForge.Naming
