import SchemaForge.Expression.Literal
import SchemaForge.Proofs.Text.QuotedBody

/-!
# Reading string literals

The value of a string literal is a sequence of UTF-16 units. `readLiteral` reads one by the rules of
the generated language, with all of its escapes, and knows nothing of how quoted texts are written.
What it reads of a quoted text are the units of the text, and no two texts have the same units. So a
text can be told from its literal.
-/

namespace SchemaForge.Script

open Text

/-! ## Units -/

/-- The UTF-16 units of a code point. -/
def codeUnits (n : Nat) : List Nat :=
  if n < 0x10000 then [n]
  else [0xD800 + (n - 0x10000) / 0x400, 0xDC00 + (n - 0x10000) % 0x400]

/-- The UTF-16 units of a text. -/
def units (cs : List Char) : List Nat := cs.flatMap fun c => codeUnits c.toNat

/-- A character is no half of a pair. -/
theorem toNat_range (c : Char) : c.toNat < 0xD800 ∨ 0xDFFF < c.toNat ∧ c.toNat < 0x110000 := c.valid

/-- The units of a character tell it, and where it ends. -/
theorem codeUnits_append_cancel {c d : Char} {us vs : List Nat}
    (h : codeUnits c.toNat ++ us = codeUnits d.toNat ++ vs) : c = d ∧ us = vs := by
  have hc := toNat_range c
  have hd := toNat_range d
  unfold codeUnits at h
  split at h <;> split at h <;>
    simp only [List.cons_append, List.nil_append, List.cons.injEq] at h
  · exact ⟨Char.toNat_inj.mp h.1, h.2⟩
  -- the first unit of a pair is no character
  · omega
  · omega
  · obtain ⟨hhigh, hlow, hrest⟩ := h
    exact ⟨Char.toNat_inj.mp (by omega), hrest⟩

/-- **No two texts have the same units.** -/
theorem units_injective {cs ds : List Char} (h : units cs = units ds) : cs = ds := by
  have hne : ∀ c : Char, codeUnits c.toNat ≠ [] := fun c => by
    unfold codeUnits
    split <;> exact List.cons_ne_nil _ _
  induction cs generalizing ds with
  | nil =>
    cases ds with
    | nil => rfl
    | cons d ds => exact absurd (List.append_eq_nil_iff.mp h.symm).1 (hne d)
  | cons c cs ih =>
    cases ds with
    | nil => exact absurd (List.append_eq_nil_iff.mp h).1 (hne c)
    | cons d ds =>
      obtain ⟨rfl, hrest⟩ := codeUnits_append_cancel h
      rw [ih hrest]

/-! ## Literals -/

/-- Where in a string literal a character stands. -/
inductive LiteralPlace where
  | plain
  /-- After a backslash. -/
  | escape
  /-- After a backslash and a carriage return, which a line feed may belong to. -/
  | continued
  /-- After a backslash and a `u`. -/
  | unicode
  /-- Before the last digits of a unit, `more` and one of them, after digits of a value. -/
  | digits (more value : Nat)
  /-- In an escape with braces, after digits of a value, if there are any. -/
  | braces (value : Option Nat)

/-- Whether a quote may close the literal here. -/
def LiteralPlace.mayEnd : LiteralPlace → Bool
  | .plain | .continued => true
  | _ => false

/-- The characters that end a line of code. -/
def isLineTerminator (c : Char) : Bool :=
  Quoted.isLineBreak c || c.toNat == 0x2028 || c.toNat == 0x2029

/-- The code point that a letter after a backslash stands for; most stand for themselves. -/
def escaped (c : Char) : Nat :=
  if c = 'b' then 8
  else if c = 't' then 9
  else if c = 'n' then 10
  else if c = 'v' then 11
  else if c = 'f' then 12
  else if c = 'r' then 13
  else c.toNat

/-- A character outside of escapes. -/
def stepPlain (c : Char) : Option (LiteralPlace × List Nat) :=
  if c = '\\' then some (.escape, [])
  else if Quoted.isLineBreak c then none
  else some (.plain, codeUnits c.toNat)

/-- One of the digits of a unit. -/
def stepDigit (more value : Nat) (c : Char) : Option (LiteralPlace × List Nat) := do
  let d ← Quoted.hexValue? c
  match more with
  | 0 => some (.plain, [value * 16 + d])
  | more + 1 => some (.digits more (value * 16 + d), [])

/-- The place after a character that does not close the literal, and the units that it completes;
`next` is the character after it. -/
def LiteralPlace.step (next : Option Char) : LiteralPlace → Char → Option (LiteralPlace × List Nat)
  | .plain, c => stepPlain c
  | .escape, c =>
    if c = 'u' then some (.unicode, [])
    else if c = 'x' then some (.digits 1 0, [])
    -- a line terminator after a backslash continues the literal on the next line
    else if c = '\r' then some (.continued, [])
    else if isLineTerminator c then some (.plain, [])
    else if c = '0' ∧ next.any Char.isDigit = false then some (.plain, [0])
    else if c.isDigit then none
    else some (.plain, codeUnits (escaped c))
  | .continued, c => if c = '\n' then some (.plain, []) else stepPlain c
  | .unicode, c => if c = '\x7b' then some (.braces none, []) else stepDigit 3 0 c
  | .digits more value, c => stepDigit more value c
  | .braces value, c =>
    if c = '\x7d' then do
      let n ← value
      if n < 0x110000 then some (.plain, codeUnits n) else none
    else do
      let d ← Quoted.hexValue? c
      some (.braces (some (value.getD 0 * 16 + d)), [])

/-- Puts units before those that are read of the rest of a literal. -/
def emit (us : List Nat) (r : List Nat × List Char) : List Nat × List Char := (us ++ r.1, r.2)

/-- Reads the inside of a literal up to its closing quote: its units, and what follows it. -/
def readInside (quote : Char) : LiteralPlace → List Char → Option (List Nat × List Char)
  | _, [] => none
  | place, c :: cs =>
    if place.mayEnd && c == quote then some ([], cs)
    else do
      let (place, us) ← place.step cs.head? c
      (readInside quote place cs).map (emit us)

/-- Reads a string literal at the start of a text: its units, and what follows it. -/
def readLiteral : List Char → Option (List Nat × List Char)
  | [] => none
  | c :: cs => if c = '"' ∨ c = '\x27' then readInside c .plain cs else none

/-! ## Quoted texts -/

/-- A text leads from one place between double quotes to another one, and its units are read of
it. -/
def Reads (place : LiteralPlace) (t : List Char) (place' : LiteralPlace) (us : List Nat) : Prop :=
  ∀ rest, readInside '"' place (t ++ rest) = (readInside '"' place' rest).map (emit us)

section Reads

variable {p q r : LiteralPlace} {s t : List Char} {us vs : List Nat} {c : Char} {n : Nat}

theorem reads_nil : Reads p [] p [] := fun _ => Option.map_id_apply.symm

theorem Reads.append (hs : Reads p s q us) (ht : Reads q t r vs) :
    Reads p (s ++ t) r (us ++ vs) := fun rest => by
  have hemit : emit us ∘ emit vs = emit (us ++ vs) :=
    funext fun _ => Prod.ext (List.append_assoc _ _ _).symm rfl
  rw [List.append_assoc, hs, ht, Option.map_map, hemit]

theorem Reads.ite {P : Prop} [Decidable P] (hpos : P → Reads p s q us)
    (hneg : ¬ P → Reads p t q us) : Reads p (if P then s else t) q us := by
  split
  · exact hpos ‹_›
  · exact hneg ‹_›

/-- **A character that does not close the literal makes one step.** -/
theorem reads_of_step (hend : (p.mayEnd && c == '"') = false)
    (hstep : ∀ next, p.step next c = some (q, us)) : Reads p [c] q us := fun rest => by
  rw [List.singleton_append, readInside, hend, hstep]
  rfl

/-- A character that completes no unit goes before what leads on. -/
theorem Reads.cons (hend : (p.mayEnd && c == '"') = false)
    (hstep : ∀ next, p.step next c = some (q, [])) (ht : Reads q t r vs) : Reads p (c :: t) r vs :=
  (reads_of_step hend hstep).append ht

theorem reads_self (hquote : c ≠ '"') (hback : c ≠ '\\') (hline : Quoted.isLineBreak c = false) :
    Reads .plain [c] .plain (codeUnits c.toNat) := by
  refine reads_of_step (by simp [hquote]) fun next => ?_
  rw [LiteralPlace.step, stepPlain, if_neg hback, if_neg (by rw [hline]; exact Bool.false_ne_true)]

/-- A letter after a backslash. -/
theorem reads_short (hstep : ∀ next, LiteralPlace.escape.step next c = some (.plain, us)) :
    Reads .plain ['\\', c] .plain us :=
  Reads.cons rfl (fun _ => rfl) (reads_of_step rfl hstep)

theorem hexDigit_ne_brace (h : n < 16) : Quoted.hexDigit n ≠ '\x7b' := by
  have hall : ∀ m ∈ List.range 16, Quoted.hexDigit m ≠ '\x7b' := by decide
  exact hall n (List.mem_range.mpr h)

theorem reads_digit (h : n < 16) (more value : Nat) :
    Reads (.digits (more + 1) value) [Quoted.hexDigit n] (.digits more (value * 16 + n)) [] :=
  reads_of_step rfl fun _ => by
    rw [LiteralPlace.step, stepDigit, Quoted.hexValue?_hexDigit h]
    rfl

theorem reads_lastDigit (h : n < 16) (value : Nat) :
    Reads (.digits 0 value) [Quoted.hexDigit n] .plain [value * 16 + n] :=
  reads_of_step rfl fun _ => by
    rw [LiteralPlace.step, stepDigit, Quoted.hexValue?_hexDigit h]
    rfl

theorem reads_firstDigit (h : n < 16) :
    Reads .unicode [Quoted.hexDigit n] (.digits 2 n) [] :=
  reads_of_step rfl fun _ => by
    rw [LiteralPlace.step, if_neg (hexDigit_ne_brace h), stepDigit, Quoted.hexValue?_hexDigit h]
    show some (LiteralPlace.digits 2 (0 * 16 + n), ([] : List Nat)) = _
    rw [Nat.zero_mul, Nat.zero_add]

/-- A unit that is written with four digits. -/
theorem reads_unitEscape (h : n < 0x10000) : Reads .plain (Quoted.unitEscape n) .plain [n] := by
  have hdigit : ∀ m : Nat, m % 16 < 16 := fun m => Nat.mod_lt m (by decide)
  have hdigits := (((reads_firstDigit (hdigit (n / 16 / 16 / 16))).append
    (reads_digit (hdigit (n / 16 / 16)) 1 _)).append (reads_digit (hdigit (n / 16)) 0 _)).append
    (reads_lastDigit (hdigit n) _)
  have hvalue : ((n / 16 / 16 / 16 % 16 * 16 + n / 16 / 16 % 16) * 16 + n / 16 % 16) * 16 + n % 16
      = n := by omega
  rw [hvalue] at hdigits
  exact Reads.cons rfl (fun _ => rfl) (Reads.cons rfl (fun _ => rfl) hdigits)

/-- **However a character is written between quotes, its own units are read of it.** -/
theorem reads_escape (asciiOnly : Bool) (c : Char) :
    Reads .plain (Quoted.escape asciiOnly c) .plain (codeUnits c.toNat) := by
  have hrange := toNat_range c
  have hunit : c.toNat < 0x10000 →
      Reads .plain (Quoted.unitEscape c.toNat) .plain (codeUnits c.toNat) := fun h => by
    rw [codeUnits, if_pos h]
    exact reads_unitEscape h
  have hshort : ∀ {d e : Char},
      (∀ next, LiteralPlace.escape.step next e = some (.plain, codeUnits d.toNat)) →
      c = d → Reads .plain ['\\', e] .plain (codeUnits c.toNat) := fun hstep hc => by
    rw [hc]
    exact reads_short hstep
  unfold Quoted.escape
  -- a letter after a backslash
  refine .ite (fun h => hshort (fun _ => rfl) (eq_of_beq h)) fun hquote => ?_
  refine .ite (fun h => hshort (fun _ => rfl) (eq_of_beq h)) fun hback => ?_
  refine .ite (fun h => hshort (fun _ => rfl) (eq_of_beq h)) fun hfeed => ?_
  refine .ite (fun h => hshort (fun _ => rfl) (eq_of_beq h)) fun hreturn => ?_
  refine .ite (fun h => hshort (fun _ => rfl) (eq_of_beq h)) fun _ => ?_
  refine .ite (fun h => ?_) fun _ => .ite (fun h => ?_) fun _ => ?_
  · rw [eq_of_beq h]
    exact reads_short fun _ => rfl
  · rw [eq_of_beq h]
    exact reads_short fun _ => rfl
  -- one unit, or the two of a pair
  refine .ite (fun _ => hunit (by omega)) fun _ => ?_
  refine .ite (fun _ => .ite hunit fun hwide => ?_) fun _ => ?_
  · rw [codeUnits, if_neg hwide]
    exact (reads_unitEscape (by omega)).append (reads_unitEscape (by omega))
  · refine reads_self (by simpa using hquote) (by simpa using hback) ?_
    rw [Quoted.isLineBreak, Bool.or_eq_false_iff]
    exact ⟨by simpa using hfeed, by simpa using hreturn⟩

theorem reads_encodeChars (asciiOnly : Bool) (cs : List Char) :
    Reads .plain (Quoted.encodeChars asciiOnly cs) .plain (units cs) := by
  induction cs with
  | nil => exact reads_nil
  | cons c cs ih => exact (reads_escape asciiOnly c).append ih

end Reads

/-- **A quoted text is read as the text**, up to its closing quote. -/
theorem readLiteral_quote (asciiOnly : Bool) (s : String) (rest : List Char) :
    readLiteral ((Json.quote asciiOnly s).toList ++ rest) = some (units s.toList, rest) := by
  have hinside := reads_encodeChars asciiOnly s.toList ('"' :: rest)
  rw [Json.quote, String.toList_ofList, Quoted.encode]
  show readInside '"' .plain (Quoted.encodeChars asciiOnly s.toList ++ ['"'] ++ rest) = _
  rw [List.append_assoc, List.singleton_append, hinside]
  exact congrArg some (Prod.ext (List.append_nil _) rfl)

/-- **A text and its string literal tell each other**: what is read of the literal are the units of
this text and of no other one, and the literal ends at its last character. For between its quotes it
has no control character, and a quote or a backslash only in an escape. -/
theorem literal_string_exact (s : String) :
    (∀ t : String, readLiteral (Literal.string s).toList = some (units t.toList, []) ↔ t = s) ∧
      (∀ rest, readLiteral ((Literal.string s).toList ++ rest) = some (units s.toList, rest)) ∧
      ∃ body, (Literal.string s).toList = '"' :: (body ++ ['"']) ∧
        (∀ c ∈ body, ¬ c.toNat < 0x20) ∧
        Token.bare '"' ∉ tokens body ∧ Token.bare '\\' ∉ tokens body := by
  have hread : ∀ rest, readLiteral ((Literal.string s).toList ++ rest) =
      some (units s.toList, rest) := readLiteral_quote false s
  refine ⟨fun t => ?_, hread, Quoted.encodeChars false s.toList, String.toList_ofList, ?_, ?_⟩
  · have hwhole := hread []
    rw [List.append_nil] at hwhole
    rw [hwhole]
    constructor
    · intro h
      exact String.toList_inj.mp (units_injective (Prod.ext_iff.mp (Option.some.inj h)).1.symm)
    · rintro rfl
      rfl
  · exact fun c hc => of_decide_eq_false (Quoted.isControl_encodeChars false s.toList c hc)
  · exact Quoted.not_mem_tokens_of_isBody (Quoted.isBody_encodeChars false s.toList)

end SchemaForge.Script
