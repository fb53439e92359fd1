import SchemaForge.Expression.Literal
import SchemaForge.Proofs.Text.Backslashes

/-!
# The source of a regular expression literal

Whether a character of a pattern is escaped depends on the run of backslashes before it: a run of odd
length ends in a backslash that is not itself escaped. Escaping a pattern goes through it with this
one bit, and since it puts an escape of its own for every character that it changes, the bit is the
same after a pattern and after its escaped source.

So bare slashes never stay, and the source ends as the pattern does. A line break that the pattern
puts right after an escaping backslash, however, is taken for an escape and stays as it is.

Seen as tokens, a pattern is escaped one by one (`tokens_regexSource`), and since no pair is changed,
escaping what is escaped changes nothing (`regexSource_regexSource`).
-/

namespace SchemaForge.Literal

open Text

/-! ## Escaping by pieces -/

theorem regexSource_pair (c : Char) (cs : List Char) :
    regexSource ('\\' :: c :: cs) = '\\' :: c :: regexSource cs := rfl

/-- What is written for a token: bare slashes and line breaks become escapes. -/
def writtenToken : Token → Token
  | .bare '/' => .pair '/'
  | .bare '\n' => .pair 'n'
  | .bare '\r' => .pair 'r'
  | t => t

theorem writtenToken_of_ne {c : Char} (hslash : c ≠ '/') (hfeed : c ≠ '\n') (hreturn : c ≠ '\r') :
    writtenToken (.bare c) = .bare c :=
  writtenToken.eq_4 _ (fun h => hslash (Token.bare.inj h)) (fun h => hfeed (Token.bare.inj h))
    fun h => hreturn (Token.bare.inj h)

theorem regexSource_cons {c : Char} (h : c ≠ '\\') (cs : List Char) :
    regexSource (c :: cs) = (writtenToken (.bare c)).chars ++ regexSource cs := by
  rw [regexSource.eq_4 c cs (fun hc _ => h hc) (fun _ _ hc _ => h hc)]
  split
  · rename_i hslash
    rw [eq_of_beq hslash]
    rfl
  rename_i hslash
  split
  · rename_i hfeed
    rw [eq_of_beq hfeed]
    rfl
  rename_i hfeed
  split
  · rename_i hreturn
    rw [eq_of_beq hreturn]
    rfl
  rename_i hreturn
  rw [writtenToken_of_ne (by simpa using hslash) (by simpa using hfeed) (by simpa using hreturn)]
  rfl

/-- A character that no backslash escapes is written as it is, or as a pair that is no break or
slash of its own. -/
theorem regexSource_bare {c : Char} (h : c ≠ '\\') (cs : List Char) :
    (regexSource (c :: cs) = c :: regexSource cs ∧ c ≠ '/' ∧ c ≠ '\n' ∧ c ≠ '\r') ∨
      ∃ d, regexSource (c :: cs) = '\\' :: d :: regexSource cs ∧ d ≠ '\n' ∧ d ≠ '\r' := by
  rw [regexSource_cons h]
  by_cases hslash : c = '/'
  · rw [hslash]
    exact Or.inr ⟨'/', rfl, by decide⟩
  by_cases hfeed : c = '\n'
  · rw [hfeed]
    exact Or.inr ⟨'n', rfl, by decide⟩
  by_cases hreturn : c = '\r'
  · rw [hreturn]
    exact Or.inr ⟨'r', rfl, by decide⟩
  rw [writtenToken_of_ne hslash hfeed hreturn]
  exact Or.inl ⟨rfl, hslash, hfeed, hreturn⟩

/-- **A pattern and its escaped source end alike.** -/
theorem endsUnpaired_regexSource (cs : List Char) :
    endsUnpaired (regexSource cs) = endsUnpaired cs := by
  induction cs using backslashRec with
  | nil => rfl
  | last => rfl
  | pair c cs ih => rw [regexSource_pair, endsUnpaired_pair, endsUnpaired_pair, ih]
  | bare c cs h ih =>
    rw [endsUnpaired_bare h]
    -- what is put for `c` is a whole pair if it has a backslash, so it leaves no bit behind
    rcases regexSource_bare h cs with ⟨heq, -⟩ | ⟨d, heq, -⟩
    · rw [heq, endsUnpaired_bare h, ih]
    · rw [heq, endsUnpaired_pair, ih]

/-- **No slash is left bare.** -/
theorem everywhere_slash (cs : List Char) :
    Everywhere (fun escaped c => c = '/' → escaped = true) false (regexSource cs) := by
  induction cs using backslashRec with
  | nil => trivial
  | last => exact ⟨by decide, trivial⟩
  | pair c cs ih =>
    rw [regexSource_pair, everywhere_pair]
    exact ⟨by decide, fun _ => rfl, ih⟩
  | bare c cs h ih =>
    rcases regexSource_bare h cs with ⟨heq, hslash, -⟩ | ⟨d, heq, -⟩
    · rw [heq, everywhere_bare h]
      exact ⟨fun hc => absurd hc hslash, ih⟩
    · rw [heq, everywhere_pair]
      exact ⟨by decide, fun _ => rfl, ih⟩

/-- A text without line feeds and carriage returns. -/
def BreakFree (cs : List Char) : Prop := ∀ c ∈ cs, c ≠ '\n' ∧ c ≠ '\r'

theorem breakFree_cons {c : Char} {cs : List Char} :
    BreakFree (c :: cs) ↔ (c ≠ '\n' ∧ c ≠ '\r') ∧ BreakFree cs := List.forall_mem_cons

/-- **Line breaks are left where they follow an escaping backslash**, and only there. -/
theorem breakFree_regexSource {cs : List Char} : BreakFree (regexSource cs) ↔
    Everywhere (fun escaped c => c = '\n' ∨ c = '\r' → escaped = false) false cs := by
  induction cs using backslashRec with
  | nil => exact iff_of_true (fun _ h => nomatch h) trivial
  | last =>
    have hfree : BreakFree ['\\'] := breakFree_cons.mpr ⟨by decide, fun _ h => nomatch h⟩
    exact iff_of_true hfree ⟨fun _ => rfl, trivial⟩
  | pair c cs ih =>
    have hbreak : (c = '\n' ∨ c = '\r' → true = false) ↔ c ≠ '\n' ∧ c ≠ '\r' := by simp
    rw [regexSource_pair, everywhere_pair, breakFree_cons, breakFree_cons, ih, hbreak,
      and_iff_right (by decide), and_iff_right (fun _ => rfl)]
  | bare c cs h ih =>
    rw [everywhere_bare h, and_iff_right (fun _ => rfl), ← ih]
    rcases regexSource_bare h cs with ⟨heq, -, hbreak⟩ | ⟨d, heq, hbreak⟩
    · rw [heq, breakFree_cons, and_iff_right hbreak]
    · rw [heq, breakFree_cons, breakFree_cons, and_iff_right (by decide), and_iff_right hbreak]

/-! ## Complete sources -/

/-- A regular expression literal that ends where it should: its source is not empty, which would
start a comment, no line break or bare slash ends it, and its last backslash does not escape the
slash after it unless the pattern ends in such a backslash itself. -/
structure Complete (pattern source : List Char) : Prop where
  ne_nil : source ≠ []
  noBreak : BreakFree source
  slashes : ∀ before after, source = before ++ '/' :: after → endsUnpaired before = true
  ending : endsUnpaired source = true → endsUnpaired pattern = true

/-- A pattern that is not empty and has no line break right after an escaping backslash. -/
structure Safe (pattern : List Char) : Prop where
  ne_nil : pattern ≠ []
  breaks : ∀ before c after, pattern = before ++ c :: after → c = '\n' ∨ c = '\r' →
    endsUnpaired before = false

theorem regexSource_ne_nil {cs : List Char} : regexSource cs ≠ [] ↔ cs ≠ [] := by
  induction cs using backslashRec with
  | nil => rfl
  | last => exact iff_of_true (by decide) (by decide)
  | pair c cs => exact iff_of_true (List.cons_ne_nil _ _) (List.cons_ne_nil _ _)
  | bare c cs h =>
    refine iff_of_true ?_ (List.cons_ne_nil _ _)
    rcases regexSource_bare h cs with ⟨heq, -⟩ | ⟨d, heq, -⟩
    · exact heq ▸ List.cons_ne_nil _ _
    · exact heq ▸ List.cons_ne_nil _ _

theorem safe_iff {pattern : List Char} : Safe pattern ↔ pattern ≠ [] ∧
    Everywhere (fun escaped c => c = '\n' ∨ c = '\r' → escaped = false) false pattern :=
  ⟨fun h => ⟨h.ne_nil, everywhere_start.mpr h.breaks⟩, fun h => ⟨h.1, everywhere_start.mp h.2⟩⟩

/-- **The escaped source of a pattern makes a complete literal if the pattern is not empty and has no
line break right after an escaping backslash**, and only then. -/
theorem complete_regexSource {pattern : List Char} :
    Complete pattern (regexSource pattern) ↔ Safe pattern := by
  rw [safe_iff, ← breakFree_regexSource, ← regexSource_ne_nil]
  constructor
  · exact fun h => ⟨h.ne_nil, h.noBreak⟩
  · rintro ⟨hne, hfree⟩
    refine ⟨hne, hfree, fun before after heq => ?_, fun h => ?_⟩
    · exact everywhere_start.mp (everywhere_slash pattern) before '/' after heq rfl
    · rwa [← endsUnpaired_regexSource]

/-! ## Token by token -/

theorem writtenToken_ne {t : Token} (h : t ≠ .bare '\\') : writtenToken t ≠ .bare '\\' := by
  unfold writtenToken
  split
  · decide
  · decide
  · decide
  · exact h

/-- What is written for a token is written for itself. -/
theorem writtenToken_writtenToken (t : Token) : writtenToken (writtenToken t) = writtenToken t := by
  rw [writtenToken.eq_def t]
  split
  · rfl
  · rfl
  · rfl
  · rename_i hslash hfeed hreturn
    exact writtenToken.eq_4 t hslash hfeed hreturn

/-- **Escaping a pattern changes its tokens one by one.** -/
theorem tokens_regexSource (cs : List Char) :
    tokens (regexSource cs) = (tokens cs).map writtenToken := by
  induction cs using backslashRec with
  | nil => rfl
  | last => rfl
  | pair c cs ih =>
    rw [regexSource_pair, tokens_pair, tokens_pair, List.map_cons, ih]
    rfl
  | bare c cs h ih =>
    have htoken : writtenToken (.bare c) ≠ .bare '\\' :=
      writtenToken_ne fun hc => h (Token.bare.inj hc)
    rw [regexSource_cons h, tokens_chars_append htoken, tokens_bare h, List.map_cons, ih]

/-- **Escaping an escaped pattern changes nothing.** -/
theorem regexSource_regexSource (cs : List Char) :
    regexSource (regexSource cs) = regexSource cs := by
  have hwritten : ∀ cs, regexSource cs = ((tokens cs).map writtenToken).flatMap Token.chars :=
    fun cs => by rw [← tokens_regexSource, flatMap_chars_tokens]
  have hagain : writtenToken ∘ writtenToken = writtenToken := funext writtenToken_writtenToken
  calc regexSource (regexSource cs)
      = ((tokens (regexSource cs)).map writtenToken).flatMap Token.chars := hwritten _
    _ = ((tokens cs).map writtenToken).flatMap Token.chars := by
        rw [tokens_regexSource, List.map_map, hagain]
    _ = regexSource cs := (hwritten cs).symm

/-- **Escaping is done once and for all, token by token**: an escaped pattern has the tokens of the
pattern, with pairs for the slashes and line breaks that stood bare. -/
theorem regex_token_by_token (p : String) :
    regex (regex p) = regex p ∧
      (tokens p.toList).flatMap Token.chars = p.toList ∧
      tokens (regex p).toList = (tokens p.toList).map writtenToken ∧
      (tokens (regex p).toList).length = (tokens p.toList).length := by
  have hsource : (regex p).toList = regexSource p.toList := String.toList_ofList
  refine ⟨?_, flatMap_chars_tokens _, ?_, ?_⟩
  · rw [regex, hsource, regexSource_regexSource]
    rfl
  · rw [hsource, tokens_regexSource]
  · rw [hsource, tokens_regexSource, List.length_map]

/-- A backslash at the end, a slash, and a slash and a backslash that are escaped. -/
example : regex "a/b\\/\\\\\\" = "a\\/b\\/\\\\\\" := by decide

end SchemaForge.Literal
