/-!
# Blanks

The characters that count as white space: those of ASCII, the information separators, and the
space separators and line separators of all scripts.
-/

namespace SchemaForge.Text

/-- A white-space character. -/
def isBlank (c : Char) : Bool :=
  let n := c.toNat
  (9 ≤ n && n ≤ 13) || (28 ≤ n && n ≤ 32) || n == 0x85 || n == 0xA0 || n == 0x1680 ||
    (0x2000 ≤ n && n ≤ 0x200A) || n == 0x2028 || n == 0x2029 || n == 0x202F || n == 0x205F ||
    n == 0x3000

/-- The blanks of ASCII text are among them. -/
theorem isBlank_of_isWhitespace {c : Char} (h : c.isWhitespace = true) : isBlank c = true := by
  simp only [Char.isWhitespace, Bool.or_eq_true, decide_eq_true_eq] at h
  rcases h with ((rfl | rfl) | rfl) | rfl <;> rfl

/-- A text without the characters of a class at its start. -/
def trimStart (p : Char → Bool) (cs : List Char) : List Char := cs.dropWhile p

/-- A text without the characters of a class at its end. -/
def trimEnd (p : Char → Bool) (cs : List Char) : List Char := (cs.reverse.dropWhile p).reverse

/-- A text without the characters of a class at both ends. -/
def trim (p : Char → Bool) (cs : List Char) : List Char := trimEnd p (trimStart p cs)

/-- What is left at the start of a trimmed text is no character of the class. -/
theorem not_of_trimStart_eq_cons {p : Char → Bool} {cs : List Char} {c : Char} {rest : List Char}
    (h : trimStart p cs = c :: rest) : p c = false := by
  induction cs with
  | nil => simp [trimStart] at h
  | cons d ds ih =>
    by_cases hd : p d = true
    · exact ih (by simpa [trimStart, hd] using h)
    · have hcd : d = c := by simp_all [trimStart]
      simpa [← hcd] using hd

end SchemaForge.Text
