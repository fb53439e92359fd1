import Mathlib.Data.List.Basic

/-!
# Backslashes that escape

A backslash escapes the character after it, another backslash too. Whether a character is escaped is
thus seen from the run of backslashes before it: it is if the run has odd length, and going through a
text one bit keeps track of this.

The same cut goes through `tokens`: backslashes with what they escape, and single characters.
-/

namespace SchemaForge.Text

/-- Induction over a text cut into pairs of a backslash and what it escapes, and single characters. -/
@[elab_as_elim]
theorem backslashRec {motive : List Char → Prop} (nil : motive []) (last : motive ['\\'])
    (pair : ∀ c cs, motive cs → motive ('\\' :: c :: cs))
    (bare : ∀ c cs, c ≠ '\\' → motive cs → motive (c :: cs)) : ∀ cs, motive cs
  | [] => nil
  | [c] => by
    by_cases hc : c = '\\'
    · exact hc ▸ last
    · exact bare c [] hc nil
  | c :: d :: cs => by
    by_cases hc : c = '\\'
    · exact hc ▸ pair d cs (backslashRec nil last pair bare cs)
    · exact bare c (d :: cs) hc (backslashRec nil last pair bare (d :: cs))

/-- The text ends in a backslash that no backslash before it escapes. -/
def endsUnpaired (cs : List Char) : Bool := (cs.reverse.takeWhile (· == '\\')).length % 2 == 1

/-- Whether the character after one is escaped, when it is known whether that one is. -/
def escapes (escaped : Bool) (c : Char) : Bool := c == '\\' && !escaped

/-- Only a backslash escapes what comes after it. -/
theorem escapes_of_ne {c : Char} (h : c ≠ '\\') (escaped : Bool) : escapes escaped c = false := by
  rw [escapes, beq_false_of_ne h, Bool.false_and]

/-- What is escaped itself does not escape, not even a backslash. -/
theorem escapes_true (c : Char) : escapes true c = false := Bool.and_false _

theorem endsUnpaired_concat (cs : List Char) (c : Char) :
    endsUnpaired (cs ++ [c]) = escapes (endsUnpaired cs) c := by
  unfold endsUnpaired escapes
  rw [List.reverse_append, List.reverse_singleton, List.singleton_append]
  by_cases hc : c = '\\'
  · rw [List.takeWhile_cons_of_pos (by simpa using hc), List.length_cons, hc]
    generalize (List.takeWhile _ cs.reverse).length = n
    rcases Nat.mod_two_eq_zero_or_one n with h | h
    · simp [h, Nat.add_mod]
    · simp [h, Nat.add_mod]
  · rw [List.takeWhile_cons_of_neg (by simpa using hc), beq_false_of_ne hc]
    rfl

/-- Whether a text ends in an open backslash depends on what comes before only by its own end. -/
theorem endsUnpaired_append (s t : List Char) :
    endsUnpaired (s ++ t) = t.foldl escapes (endsUnpaired s) := by
  induction t generalizing s with
  | nil => rw [List.append_nil, List.foldl_nil]
  | cons c t ih => rw [List.append_cons, ih, endsUnpaired_concat, List.foldl_cons]

/-- A pair of a backslash and a character leaves nothing open. -/
theorem endsUnpaired_pair (c : Char) (cs : List Char) :
    endsUnpaired ('\\' :: c :: cs) = endsUnpaired cs := by
  have hone : endsUnpaired ['\\'] = true := by decide
  have hpair : endsUnpaired ['\\', c] = endsUnpaired [] :=
    (endsUnpaired_concat ['\\'] c).trans (by rw [hone]; exact escapes_true c)
  rw [← List.nil_append cs, endsUnpaired_append, ← hpair, ← endsUnpaired_append]
  rfl

theorem endsUnpaired_bare {c : Char} (h : c ≠ '\\') (cs : List Char) :
    endsUnpaired (c :: cs) = endsUnpaired cs := by
  have hbare : endsUnpaired [c] = endsUnpaired [] :=
    (endsUnpaired_concat [] c).trans (escapes_of_ne h _)
  rw [← List.nil_append cs, endsUnpaired_append, ← hbare, ← endsUnpaired_append]
  rfl

/-- What holds of every character, given whether it is escaped. -/
def Everywhere (P : Bool → Char → Prop) : Bool → List Char → Prop
  | _, [] => True
  | escaped, c :: cs => P escaped c ∧ Everywhere P (escapes escaped c) cs

/-- **A condition on every character of a text**, with whether it is escaped there. -/
theorem everywhere_iff {P : Bool → Char → Prop} {s cs : List Char} :
    Everywhere P (endsUnpaired s) cs ↔
      ∀ before c after, cs = before ++ c :: after → P (endsUnpaired (s ++ before)) c := by
  -- the bit that is carried on is that of all the text so far, so `s` grows by each character
  induction cs generalizing s with
  | nil => exact iff_of_true trivial fun before c after h => by simp at h
  | cons d cs ih =>
    rw [Everywhere, ← endsUnpaired_concat, ih]
    constructor
    · rintro ⟨hd, hcs⟩ before c after heq
      cases before with
      | nil =>
        obtain ⟨rfl, rfl⟩ := List.cons.inj heq
        rwa [List.append_nil]
      | cons e before =>
        obtain ⟨rfl, rfl⟩ := List.cons.inj heq
        rw [List.append_cons]
        exact hcs before c after rfl
    · intro h
      refine ⟨by simpa using h [] d cs rfl, fun before c after heq => ?_⟩
      rw [← List.append_cons]
      exact h (d :: before) c after (by rw [heq]; rfl)

variable {P : Bool → Char → Prop}

theorem everywhere_start {cs : List Char} : Everywhere P false cs ↔
    ∀ before c after, cs = before ++ c :: after → P (endsUnpaired before) c :=
  everywhere_iff (s := [])

/-- The backslash of a pair is not escaped, the character after it is. -/
theorem everywhere_pair {c : Char} {cs : List Char} :
    Everywhere P false ('\\' :: c :: cs) ↔ P false '\\' ∧ P true c ∧ Everywhere P false cs := by
  have hone : escapes false '\\' = true := rfl
  rw [Everywhere, Everywhere, hone, escapes_true]

theorem everywhere_bare {c : Char} (h : c ≠ '\\') {cs : List Char} :
    Everywhere P false (c :: cs) ↔ P false c ∧ Everywhere P false cs := by
  rw [Everywhere, escapes_of_ne h]

/-! ## Tokens -/

/-- What counts as one in a text. -/
inductive Token where
  /-- A backslash and the character after it. -/
  | pair (c : Char)
  /-- A character that no backslash escapes; a backslash only at the end of a text. -/
  | bare (c : Char)
deriving DecidableEq

/-- The characters of a token. -/
def Token.chars : Token → List Char
  | .pair c => ['\\', c]
  | .bare c => [c]

/-- The tokens of a text. -/
def tokens : List Char → List Token
  | [] => []
  | ['\\'] => [.bare '\\']
  | '\\' :: c :: cs => .pair c :: tokens cs
  | c :: cs => .bare c :: tokens cs

/-- A backslash takes the character after it along. -/
theorem tokens_pair (c : Char) (cs : List Char) :
    tokens ('\\' :: c :: cs) = .pair c :: tokens cs := rfl

theorem tokens_bare {c : Char} (h : c ≠ '\\') (cs : List Char) :
    tokens (c :: cs) = .bare c :: tokens cs :=
  tokens.eq_4 c cs (fun hc _ => h hc) (fun _ _ hc _ => h hc)

/-- A token in front is cut off first, unless it is an open backslash. -/
theorem tokens_chars_append {t : Token} (h : t ≠ .bare '\\') (cs : List Char) :
    tokens (t.chars ++ cs) = t :: tokens cs := by
  cases t with
  | pair c => rfl
  | bare c => exact tokens_bare (fun hc => h (congrArg Token.bare hc)) cs

/-- **A text is cut into its tokens**: nothing is lost. -/
theorem flatMap_chars_tokens (cs : List Char) : (tokens cs).flatMap Token.chars = cs := by
  induction cs using backslashRec with
  | nil => rfl
  | last => rfl
  | pair c cs ih => rw [tokens_pair, List.flatMap_cons, ih]; rfl
  | bare c cs h ih => rw [tokens_bare h, List.flatMap_cons, ih]; rfl

end SchemaForge.Text
