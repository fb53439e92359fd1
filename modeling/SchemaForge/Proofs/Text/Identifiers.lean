import SchemaForge.Expression.Literal
import SchemaForge.Proofs.Text.Words
import SchemaForge.Text.Digits
import SchemaForge.Text.Identifiers

/-!
# Identifiers of the generated language

An identifier is not empty, has only letters, digits, low lines and dollar signs, and does not start
with a digit. Letters and digits may be of any script; among the characters of ASCII they are those
that may stand in a property name without quotes.
-/

namespace SchemaForge.Script

open Text

/-- Letters that are forms of other letters. -/
def presentationForms : Ranges :=
  [(0x37A, 0x37A), (0xE33, 0xE33), (0xEB3, 0xEB3), (0xFC5E, 0xFC63), (0xFDFA, 0xFDFB),
   (0xFE70, 0xFE70), (0xFE72, 0xFE72), (0xFE74, 0xFE74), (0xFE76, 0xFE76), (0xFE78, 0xFE78),
   (0xFE7A, 0xFE7A), (0xFE7C, 0xFE7C), (0xFE7E, 0xFE7E), (0xFF9E, 0xFF9F)]

/-- A letter of any script. -/
def isLetter (c : Char) : Bool :=
  c.isAlpha || identifierStartRanges.contains c || presentationForms.contains c

/-- A character that may stand in an identifier. -/
def isPart (c : Char) : Bool := isLetter c || isDigit c || c == '_' || c == '$'

/-- Not empty, of letters, digits, low lines and dollar signs, with no digit at the start. -/
def isIdentifier (cs : List Char) : Bool :=
  !cs.isEmpty && cs.all isPart && !(cs.head?.any isDigit)

theorem isIdentifier_cons {c : Char} {cs : List Char} :
    isIdentifier (c :: cs) = true ↔ isDigit c = false ∧ ∀ d ∈ c :: cs, isPart d = true := by
  simp [isIdentifier, and_comm]

/-- What stands after the start of an identifier only has to be of its characters. -/
theorem isIdentifier_append {cs ds : List Char} (h : cs ≠ []) (hds : ∀ d ∈ ds, isPart d = true) :
    isIdentifier (cs ++ ds) = isIdentifier cs := by
  cases cs with
  | nil => exact absurd rfl h
  | cons c cs =>
    rw [Bool.eq_iff_iff, List.cons_append, isIdentifier_cons, isIdentifier_cons, ← List.cons_append,
      List.forall_mem_append, and_iff_left hds]

/-! ## Characters of ASCII -/

theorem contains_eq_false_of_ascii {ranges : Ranges}
    (h : ranges.all (fun r => 128 ≤ r.1) = true) {c : Char} (hc : c.toNat < 128) :
    ranges.contains c = false := by
  rw [Ranges.contains, List.any_eq_false]
  intro r hr
  have hfirst : 128 ≤ r.1 := of_decide_eq_true (List.all_eq_true.mp h r hr)
  have hlt : ¬ r.1 ≤ c.toNat := by omega
  simp [hlt]

theorem isDigit_of_lt {c : Char} (hc : c.toNat < 128) : isDigit c = c.isDigit := by
  rw [isDigit, contains_eq_false_of_ascii (by decide +kernel) hc, Bool.or_false]

theorem isLetter_of_lt {c : Char} (hc : c.toNat < 128) : isLetter c = c.isAlpha := by
  rw [isLetter, contains_eq_false_of_ascii (by decide +kernel) hc,
    contains_eq_false_of_ascii (by decide +kernel) hc, Bool.or_false, Bool.or_false]

theorem isPart_of_lt {c : Char} (hc : c.toNat < 128) : isPart c = Literal.isNameChar c := by
  rw [isPart, isLetter_of_lt hc, isDigit_of_lt hc]
  rfl

theorem isDigit_of_isAlphanum {c : Char} (h : c.isAlphanum = true) : isDigit c = c.isDigit :=
  isDigit_of_lt (toNat_lt_of_isAlphanum h)

theorem isPart_of_isAlphanum {c : Char} (h : c.isAlphanum = true) : isPart c = true := by
  rw [isPart_of_lt (toNat_lt_of_isAlphanum h), Literal.isNameChar, h]
  rfl

/-- A line feed stands in no identifier. -/
theorem not_isIdentifier_of_feed {cs : List Char} (h : '\n' ∈ cs) : isIdentifier cs = false := by
  cases cs with
  | nil => cases h
  | cons c cs =>
    rw [← Bool.not_eq_true, isIdentifier_cons]
    intro hall
    have hfeed : isPart '\n' = false := isPart_of_lt (by decide)
    rw [hall.2 _ h] at hfeed
    cases hfeed

/-- ASCII letters and digits of which the first is a letter. -/
theorem isIdentifier_of_isAlpha {c : Char} {cs : List Char} (hc : c.isAlpha = true)
    (hcs : ∀ d ∈ cs, d.isAlphanum = true) : isIdentifier (c :: cs) = true := by
  have halnum : c.isAlphanum = true := by rw [Char.isAlphanum, hc, Bool.true_or]
  refine isIdentifier_cons.mpr ⟨?_, fun d hd => isPart_of_isAlphanum ?_⟩
  · have hall := of_isAlphanum (P := fun c => !(c.isAlpha && c.isDigit)) (by decide) halnum
    rw [isDigit_of_isAlphanum halnum]
    simpa [hc] using hall
  · rcases List.mem_cons.mp hd with rfl | hd
    · exact halnum
    · exact hcs d hd

theorem toNat_lt_of_isNameChar {c : Char} (h : Literal.isNameChar c = true) : c.toNat < 128 := by
  rcases Bool.or_eq_true_iff.mp h with h | hdollar
  · rcases Bool.or_eq_true_iff.mp h with halnum | hlow
    · exact toNat_lt_of_isAlphanum halnum
    · rw [eq_of_beq hlow]
      decide
  · rw [eq_of_beq hdollar]
    decide

end SchemaForge.Script
