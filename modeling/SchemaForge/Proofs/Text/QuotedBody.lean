import SchemaForge.Proofs.Document.JsonText
import SchemaForge.Proofs.Text.Backslashes

/-!
# What stands between double quotes

A quoted text is a string literal: between its quotes, quotes stand only after a backslash, every
backslash has a character after it, and there are no line breaks. So a reader that knows no more about
string literals than this finds their ends. There are no other control characters either.
-/

namespace SchemaForge.Text.Quoted

/-- The characters that no string literal may contain. -/
def isLineBreak (c : Char) : Bool := c == '\n' || c == '\r'

/-- What may stand between the quotes of a string literal. -/
def isBody : List Char → Bool
  | [] => true
  | ['\\'] => false
  | '\\' :: c :: cs => !isLineBreak c && isBody cs
  | c :: cs => c != '"' && !isLineBreak c && isBody cs

theorem isBody_cons {c : Char} (h : c ≠ '\\') (cs : List Char) :
    isBody (c :: cs) = (c != '"' && !isLineBreak c && isBody cs) :=
  isBody.eq_4 c cs (fun hc _ => h hc) (fun _ _ hc _ => h hc)

/-- A backslash takes the next character along, unless that ends the line. -/
theorem isBody_pair (c : Char) (cs : List Char) :
    isBody ('\\' :: c :: cs) = (!isLineBreak c && isBody cs) := rfl

/-- Bodies may follow each other. -/
theorem isBody_append {s t : List Char} (hs : isBody s = true) (ht : isBody t = true) :
    isBody (s ++ t) = true := by
  induction s using backslashRec with
  | nil => exact ht
  | last => cases hs
  | pair c cs ih =>
    rw [isBody_pair, Bool.and_eq_true] at hs
    rw [List.cons_append, List.cons_append, isBody_pair, hs.1, ih hs.2, Bool.true_and]
  | bare c cs h ih =>
    rw [isBody_cons h, Bool.and_eq_true] at hs
    rw [List.cons_append, isBody_cons h, hs.1, ih hs.2, Bool.true_and]

theorem isBody_singleton {c : Char} (hback : c ≠ '\\') (hquote : c ≠ '"')
    (hline : isLineBreak c = false) : isBody [c] = true := by
  rw [isBody_cons hback, hline, bne_iff_ne.mpr hquote]
  rfl

theorem isLineBreak_hexDigit {n : Nat} (h : n < 16) : isLineBreak (hexDigit n) = false := by
  have hall : ∀ m ∈ List.range 16, isLineBreak (hexDigit m) = false := by decide
  exact hall n (List.mem_range.mpr h)

/-- Hexadecimal digits are bare characters. -/
theorem isBody_hex (width n : Nat) : isBody (hex width n) = true := by
  induction width generalizing n with
  | zero => rfl
  | succ width ih =>
    have hlt : n % 16 < 16 := Nat.mod_lt _ (by decide)
    obtain ⟨hquote, hback⟩ := Json.hexDigit_ne hlt
    exact isBody_append (ih _) (isBody_singleton hback hquote (isLineBreak_hexDigit hlt))

theorem isBody_unitEscape (n : Nat) : isBody (unitEscape n) = true := isBody_hex 4 n

/-- **However a character is written between quotes, it ends no literal.** -/
theorem isBody_escape {c : Char} {t : List Char} (h : Json.Escape c t) : isBody t = true := by
  cases h with
  | self quote backslash control =>
    refine isBody_singleton backslash quote (Bool.eq_false_iff.mpr fun hline => control ?_)
    rcases Bool.or_eq_true_iff.mp hline with h | h
    · rw [eq_of_beq h]
      decide
    · rw [eq_of_beq h]
      decide
  | short letter known =>
    have hall : (['"', '\\', 'n', 'r', 't', 'b', 'f'].all fun l => isBody ['\\', l]) = true := by
      decide
    exact List.all_eq_true.mp hall letter known
  | unit n => exact isBody_unitEscape n
  | pair n m => exact isBody_append (isBody_unitEscape n) (isBody_unitEscape m)

/-- **What is encoded can stand between quotes.** -/
theorem isBody_encodeChars (asciiOnly : Bool) : ∀ cs, isBody (encodeChars asciiOnly cs) = true
  | [] => rfl
  | c :: cs => isBody_append (isBody_escape (Json.escape_spec asciiOnly c))
      (isBody_encodeChars asciiOnly cs)

/-- **Quotes and backslashes stand in escapes only.** -/
theorem not_mem_tokens_of_isBody {cs : List Char} (h : isBody cs = true) :
    .bare '"' ∉ tokens cs ∧ .bare '\\' ∉ tokens cs := by
  induction cs using backslashRec with
  | nil => exact ⟨List.not_mem_nil, List.not_mem_nil⟩
  | last => cases h
  | pair c cs ih =>
    rw [isBody_pair, Bool.and_eq_true] at h
    rw [tokens_pair]
    simpa using ih h.2
  | bare c cs hback ih =>
    rw [isBody_cons hback, Bool.and_eq_true, Bool.and_eq_true, bne_iff_ne] at h
    obtain ⟨⟨hquote, -⟩, hrest⟩ := h
    rw [tokens_bare hback]
    simpa [hquote.symm, Ne.symm hback] using ih hrest

/-! ## Control characters -/

/-- The characters below the space. -/
def isControl (c : Char) : Bool := c.toNat < 0x20

theorem isControl_hexDigit {n : Nat} (h : n < 16) : isControl (hexDigit n) = false := by
  have hall : ∀ m ∈ List.range 16, isControl (hexDigit m) = false := by decide
  exact hall n (List.mem_range.mpr h)

theorem isControl_unitEscape (n : Nat) : ∀ d ∈ unitEscape n, isControl d = false :=
  List.forall_mem_cons.mpr ⟨rfl, List.forall_mem_cons.mpr
    ⟨rfl, Json.forall_mem_hex (fun _ h => isControl_hexDigit h) 4 n⟩⟩

/-- However a character is written between quotes, there is no control character in it. -/
theorem isControl_escape {c : Char} {t : List Char} (h : Json.Escape c t) :
    ∀ d ∈ t, isControl d = false := by
  cases h with
  | self _ _ control => exact List.forall_mem_singleton.mpr (decide_eq_false control)
  | short letter known =>
    have hall : (['"', '\\', 'n', 'r', 't', 'b', 'f'].all fun l => isControl l == false) = true := by
      decide
    have hletter := eq_of_beq (List.all_eq_true.mp hall letter known)
    exact List.forall_mem_cons.mpr ⟨rfl, List.forall_mem_singleton.mpr hletter⟩
  | unit n => exact isControl_unitEscape n
  | pair n m => exact List.forall_mem_append.mpr ⟨isControl_unitEscape n, isControl_unitEscape m⟩

/-- **What is encoded has no control characters.** -/
theorem isControl_encodeChars (asciiOnly : Bool) :
    ∀ cs, ∀ d ∈ encodeChars asciiOnly cs, isControl d = false
  | [] => List.forall_mem_nil _
  | c :: cs => List.forall_mem_append.mpr
      ⟨isControl_escape (Json.escape_spec asciiOnly c), isControl_encodeChars asciiOnly cs⟩

end SchemaForge.Text.Quoted
