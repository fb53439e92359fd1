import SchemaForge.Proofs.Naming.Allocation
import SchemaForge.Proofs.Text.Identifiers

/-!
# When names are identifiers

A constant is written in camel case, a type in Pascal case. Both have only ASCII letters and digits
if the name has any, but only a type is kept from starting with a digit, and only a constant is kept
free of what else the name may hold at its end.
-/

namespace SchemaForge.Naming

open Text hiding isIdentifier
open Script

/-! ## Case -/

theorem upper_of_isAlphanum {c : Char} (h : c.isAlphanum = true) : upper c = [c.toUpper] :=
  if_pos (toNat_lt_of_isAlphanum h)

theorem lower_of_isAlphanum {c : Char} (h : c.isAlphanum = true) : lower c = [c.toLower] :=
  if_pos (toNat_lt_of_isAlphanum h)

theorem isAlphanum_upperFirst {w : List Char} (h : ∀ c ∈ w, c.isAlphanum = true) :
    ∀ c ∈ upperFirst w, c.isAlphanum = true := by
  cases w with
  | nil => exact h
  | cons c cs =>
    obtain ⟨hc, hcs⟩ := List.forall_mem_cons.mp h
    rw [upperFirst, upper_of_isAlphanum hc]
    exact List.forall_mem_cons.mpr ⟨isAlphanum_toUpper hc, hcs⟩

/-- Words in upper case, one after another, are letters and digits. -/
theorem isAlphanum_upperWords {ws : List (List Char)} (h : ∀ w ∈ ws, ∀ c ∈ w, c.isAlphanum = true) :
    ∀ c ∈ ws.flatMap upperFirst, c.isAlphanum = true := by
  intro c hc
  obtain ⟨w, hw, hc⟩ := List.mem_flatMap.mp hc
  exact isAlphanum_upperFirst (h w hw) c hc

theorem isDigit_toLower {c : Char} (h : c.isAlphanum = true) : c.toLower.isDigit = c.isDigit := by
  have hall := of_isAlphanum (P := fun c => c.toLower.isDigit == c.isDigit) (by decide) h
  simpa using hall

/-- ASCII letters and digits are an identifier if the first is a letter. -/
theorem isIdentifier_of_alphanum {c : Char} {cs : List Char}
    (h : ∀ d ∈ c :: cs, d.isAlphanum = true) :
    isIdentifier (c :: cs) = true ↔ c.isDigit = false := by
  rw [isIdentifier_cons, Script.isDigit_of_isAlphanum (h c List.mem_cons_self)]
  exact and_iff_left fun d hd => isPart_of_isAlphanum (h d hd)

/-- Mapping the case of a character leaves something of it. -/
theorem mapCase_ne_nil {expansions : List (Nat × List Nat)}
    (h : expansions.all (fun e => !e.2.isEmpty) = true) (runs : List CaseRun) (c : Char) :
    mapCase expansions runs c ≠ [] := by
  unfold mapCase
  split
  · rename_i n ns hfind
    have hns := List.all_eq_true.mp h _ (List.mem_of_find?_eq_some hfind)
    simpa using hns
  · split
    · exact List.cons_ne_nil _ _
    · exact List.cons_ne_nil _ _

theorem lowerFirst_eq_nil_iff {cs : List Char} : lowerFirst cs = [] ↔ cs = [] := by
  cases cs with
  | nil => exact iff_of_true rfl rfl
  | cons c cs =>
    have hc : lower c ≠ [] := by
      unfold lower
      split
      · exact List.cons_ne_nil _ _
      · exact mapCase_ne_nil (by decide) _ _
    simp [lowerFirst, hc]

theorem upperFirst_eq_nil_iff {cs : List Char} : upperFirst cs = [] ↔ cs = [] := by
  cases cs with
  | nil => exact iff_of_true rfl rfl
  | cons c cs =>
    have hc : upper c ≠ [] := by
      unfold upper
      split
      · exact List.cons_ne_nil _ _
      · exact mapCase_ne_nil (by decide +kernel) _ _
    simp [upperFirst, hc]

/-! ## Constants -/

/-- The first letter or digit is the first character of the first word. -/
theorem find?_isAlphanum (cs : List Char) :
    cs.find? Char.isAlphanum = (asciiWords cs).head?.bind List.head? := by
  rw [asciiWords, head_words]
  simp

/-- A name that gives the start of a constant: the first of its ASCII letters and digits is a
letter, or it has none and is empty or an identifier, once its first character is in lower case. -/
def StartsConstant (cs : List Char) : Prop :=
  match cs.find? Char.isAlphanum with
  | some c => c.isDigit = false
  | none => cs = [] ∨ isIdentifier (lowerFirst cs) = true

/-- **Only the empty text has an empty camel case.** -/
theorem camelWords_eq_nil_iff {cs : List Char} : camelWords cs = [] ↔ cs = [] := by
  unfold camelWords
  split
  · exact lowerFirst_eq_nil_iff
  · rename_i w ws hwords
    have hmem : w ∈ asciiWords cs := hwords ▸ List.mem_cons_self
    refine iff_of_false (fun h => (asciiWords_spec hmem).1 ?_) ?_
    · exact lowerFirst_eq_nil_iff.mp (List.append_eq_nil_iff.mp h).1
    · rintro rfl
      cases hwords

/-- **Camel case gives an identifier exactly for names that start a constant.** -/
theorem isIdentifier_camelWords_iff {cs : List Char} (hne : cs ≠ []) :
    isIdentifier (camelWords cs) = true ↔ StartsConstant cs := by
  rw [StartsConstant, find?_isAlphanum, camelWords]
  cases hwords : asciiWords cs with
  | nil => exact (or_iff_right hne).symm
  | cons w ws =>
    have hspec : ∀ w' ∈ w :: ws, w' ≠ [] ∧ ∀ c ∈ w', c.isAlphanum = true := fun w' hw' =>
      asciiWords_spec (hwords.symm ▸ hw')
    obtain ⟨⟨hne, hw⟩, hws⟩ := List.forall_mem_cons.mp hspec
    cases w with
    | nil => exact absurd rfl hne
    | cons c w =>
      obtain ⟨hc, hcs⟩ := List.forall_mem_cons.mp hw
      show isIdentifier (lower c ++ w ++ ws.flatMap upperFirst) = true ↔ c.isDigit = false
      rw [lower_of_isAlphanum hc, ← isDigit_toLower hc]
      refine isIdentifier_of_alphanum ?_
      exact List.forall_mem_cons.mpr ⟨isAlphanum_toLower hc,
        List.forall_mem_append.mpr ⟨hcs, isAlphanum_upperWords fun w' hw' => (hws w' hw').2⟩⟩

/-! ## Types -/

/-- An identifier in upper case is one. -/
theorem isIdentifier_upperFirst {cs : List Char} (h : isSimple cs = true) :
    isIdentifier (upperFirst cs) = true := by
  cases cs with
  | nil => cases h
  | cons c cs =>
    obtain ⟨hc, hcs⟩ := Bool.and_eq_true_iff.mp h
    have halnum : c.isAlphanum = true := by rw [Char.isAlphanum, hc, Bool.true_or]
    rw [upperFirst, upper_of_isAlphanum halnum]
    have hupper : (!c.isAlpha || c.toUpper.isAlpha) = true :=
      of_isAlphanum (P := fun c => !c.isAlpha || c.toUpper.isAlpha) (by decide) halnum
    rw [hc, Bool.not_true, Bool.false_or] at hupper
    exact isIdentifier_of_isAlpha hupper (List.all_eq_true.mp hcs)

/-- A line feed at the end makes a text none. -/
theorem not_isSimple_of_trails {cs : List Char} (h : TrailsLineFeed isSimple cs) :
    isSimple cs = false := by
  obtain ⟨before, -, rfl⟩ := h
  cases before with
  | nil => rfl
  | cons c before => simp [isSimple]

/-- **Pascal case gives an identifier exactly for names that are no simple name with a line feed
after it.** -/
theorem isIdentifier_pascalChars_iff (cs : List Char) :
    isIdentifier (pascalChars cs) = true ↔ ¬ TrailsLineFeed isSimple cs := by
  unfold pascalChars
  split
  · rename_i hcs
    rcases upToLineEnd_iff.mp hcs with hsimple | htrails
    · refine iff_of_true (isIdentifier_upperFirst hsimple) fun htrails => ?_
      rw [not_isSimple_of_trails htrails] at hsimple
      cases hsimple
    · -- the line feed is still there at the end
      refine iff_of_false ?_ (not_not_intro htrails)
      obtain ⟨before, hsimple, rfl⟩ := htrails
      cases before with
      | nil => cases hsimple
      | cons c before =>
        rw [not_isIdentifier_of_feed (by simp [upperFirst])]
        exact Bool.false_ne_true
  · rename_i hcs
    have hnot : ¬ TrailsLineFeed isSimple cs := fun h => hcs (upToLineEnd_iff.mpr (Or.inr h))
    refine iff_of_true ?_ hnot
    cases hwords : asciiWords cs with
    | nil => decide
    | cons w ws =>
      have hspec : ∀ w' ∈ w :: ws, w' ≠ [] ∧ ∀ c ∈ w', c.isAlphanum = true := fun w' hw' =>
        asciiWords_spec (hwords.symm ▸ hw')
      have hall := isAlphanum_upperWords fun w' hw' => (hspec w' hw').2
      dsimp only
      cases hname : (w :: ws).flatMap upperFirst with
      | nil =>
        rw [List.flatMap_cons, List.append_eq_nil_iff] at hname
        exact absurd (upperFirst_eq_nil_iff.mp hname.1) (hspec w List.mem_cons_self).1
      | cons c name =>
        rw [hname] at hall
        dsimp only
        split
        · exact isIdentifier_of_isAlpha (by decide) hall
        · rename_i hdigit
          exact (isIdentifier_of_alphanum hall).mpr (by simpa using hdigit)

/-- Pascal case is never empty. -/
theorem pascalChars_ne_nil (cs : List Char) : pascalChars cs ≠ [] := by
  by_cases h : TrailsLineFeed isSimple cs
  · rw [pascalChars, if_pos (upToLineEnd_iff.mpr (Or.inr h))]
    obtain ⟨before, -, rfl⟩ := h
    exact fun hnil => List.append_ne_nil_of_right_ne_nil before (List.cons_ne_nil _ _)
      (upperFirst_eq_nil_iff.mp hnil)
  · intro hnil
    have hidentifier := (isIdentifier_pascalChars_iff cs).mpr h
    rw [hnil] at hidentifier
    cases hidentifier

end SchemaForge.Naming
