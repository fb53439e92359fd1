import SchemaForge.Document.Json.Writer
import SchemaForge.Proofs.Document.Fields
import SchemaForge.Proofs.Outcome

/-!
# JSON texts can be cut in one way only

A written value has no comma and no closing bracket outside of its own quotes and brackets. So the
texts between the commas of a list or of an object can be read off its text, although nothing is said
about what each of them stands for: `remainder` goes through a text up to the end of the value that
it starts with.

For objects in canonical form this shows which fields they have.
-/

namespace SchemaForge.Json

open Text

/-! ## Going through a text -/

/-- Where in a text a character stands. -/
inductive Mode where
  | outside
  | quoted
  /-- After a backslash between quotes. -/
  | escaped

/-- What is left of a text from the first comma or closing bracket on that stands outside of quotes
and of brackets opened before it; `depth` brackets are open. -/
def remainder : Mode → Nat → List Char → List Char
  | _, _, [] => []
  | .escaped, depth, _ :: cs => remainder .quoted depth cs
  | .quoted, depth, c :: cs =>
    if c = '\\' then remainder .escaped depth cs
    else if c = '"' then remainder .outside depth cs
    else remainder .quoted depth cs
  | .outside, depth, c :: cs =>
    if c = '"' then remainder .quoted depth cs
    else if c = '[' ∨ c = '\x7b' then remainder .outside (depth + 1) cs
    else if c = ']' ∨ c = '\x7d' then
      match depth with
      | 0 => c :: cs
      | depth + 1 => remainder .outside depth cs
    else if c = ',' ∧ depth = 0 then c :: cs
    else remainder .outside depth cs

/-- A text that leaves no bracket open and has no comma outside of brackets. -/
def Passes (t : List Char) : Prop :=
  ∀ depth rest, remainder .outside depth (t ++ rest) = remainder .outside depth rest

/-- A text that leaves no bracket open. -/
def PassesInside (t : List Char) : Prop :=
  ∀ depth rest, remainder .outside (depth + 1) (t ++ rest) = remainder .outside (depth + 1) rest

/-- A text of one value. -/
structure Written (t : List Char) : Prop where
  ne_nil : t ≠ []
  passes : Passes t

/-- What passes everywhere passes inside of brackets. -/
theorem Passes.inside {t : List Char} (h : Passes t) : PassesInside t := fun depth => h (depth + 1)

theorem passes_nil : Passes [] := fun _ _ => rfl

/-- Texts that pass may follow each other. -/
theorem Passes.append {s t : List Char} (hs : Passes s) (ht : Passes t) : Passes (s ++ t) := by
  intro depth rest
  rw [List.append_assoc, hs, ht]

/-! ## Values of one piece -/

/-- A character that means nothing outside of quotes. -/
def isPlain (c : Char) : Bool := !(['"', '[', ']', '\x7b', '\x7d', ','].contains c)

theorem passes_of_plain {t : List Char} (h : ∀ c ∈ t, isPlain c = true) : Passes t := by
  induction t with
  | nil => exact passes_nil
  | cons c t ih =>
    obtain ⟨hc, ht⟩ := List.forall_mem_cons.mp h
    intro depth rest
    have hstep : remainder .outside depth (c :: (t ++ rest)) = remainder .outside depth (t ++ rest) := by
      simp only [isPlain, Bool.not_eq_true', List.contains_eq_mem, List.mem_cons, List.not_mem_nil,
        or_false, decide_eq_false_iff_not, not_or] at hc
      obtain ⟨h₁, h₂, h₃, h₄, h₅, h₆⟩ := hc
      simp only [remainder, h₁, h₂, h₃, h₄, h₅, h₆, or_self, false_and, if_false]
    rw [List.cons_append, hstep, ih ht]

theorem passes_of_all {t : List Char} (h : t.all isPlain = true) : Passes t :=
  passes_of_plain (List.all_eq_true.mp h)

/-- Characters that mean nothing between quotes. -/
theorem remainder_quoted {t : List Char} (h : ∀ c ∈ t, c ≠ '"' ∧ c ≠ '\\') (depth : Nat)
    (rest : List Char) : remainder .quoted depth (t ++ rest) = remainder .quoted depth rest := by
  induction t with
  | nil => rfl
  | cons c t ih =>
    obtain ⟨⟨hq, hb⟩, ht⟩ := List.forall_mem_cons.mp h
    rw [List.cons_append]
    simp only [remainder, hq, hb, if_false]
    exact ih ht

theorem hexDigit_ne {n : Nat} (h : n < 16) :
    Quoted.hexDigit n ≠ '"' ∧ Quoted.hexDigit n ≠ '\\' := by
  have hall : ∀ m ∈ List.range 16, Quoted.hexDigit m ≠ '"' ∧ Quoted.hexDigit m ≠ '\\' := by decide
  exact hall n (List.mem_range.mpr h)

/-- What holds of all digits holds of what is written with them. -/
theorem forall_mem_hex {P : Char → Prop} (h : ∀ d < 16, P (Quoted.hexDigit d)) (width n : Nat) :
    ∀ c ∈ Quoted.hex width n, P c := by
  induction width generalizing n with
  | zero => exact List.forall_mem_nil _
  | succ width ih =>
    intro c hc
    rcases List.mem_append.mp hc with hc | hc
    · exact ih _ c hc
    · rw [List.mem_singleton.mp hc]
      exact h _ (Nat.mod_lt _ (by decide))

/-- Hexadecimal digits are neither quotes nor backslashes. -/
theorem hex_ne (width n : Nat) : ∀ c ∈ Quoted.hex width n, c ≠ '"' ∧ c ≠ '\\' :=
  forall_mem_hex (fun _ h => hexDigit_ne h) width n

theorem remainder_unitEscape (n depth : Nat) (rest : List Char) :
    remainder .quoted depth (Quoted.unitEscape n ++ rest) = remainder .quoted depth rest :=
  remainder_quoted (hex_ne 4 n) depth rest

/-- The ways to write a character between quotes. -/
inductive Escape (c : Char) : List Char → Prop where
  | self (quote : c ≠ '"') (backslash : c ≠ '\\') (control : ¬ c.toNat < 0x20) : Escape c [c]
  | short (letter : Char) (known : letter ∈ ['"', '\\', 'n', 'r', 't', 'b', 'f']) :
    Escape c ['\\', letter]
  | unit (n : Nat) : Escape c (Quoted.unitEscape n)
  | pair (n m : Nat) : Escape c (Quoted.unitEscape n ++ Quoted.unitEscape m)

theorem Escape.ite {c : Char} {s t : List Char} {P : Prop} [Decidable P] (hpos : P → Escape c s)
    (hneg : ¬ P → Escape c t) : Escape c (if P then s else t) := by
  split
  · exact hpos ‹_›
  · exact hneg ‹_›

/-- Every character is escaped in one of the ways. -/
theorem escape_spec (asciiOnly : Bool) (c : Char) : Escape c (Quoted.escape asciiOnly c) := by
  have hshort : ∀ letter ∈ ['"', '\\', 'n', 'r', 't', 'b', 'f'], Escape c ['\\', letter] := .short
  unfold Quoted.escape
  refine .ite (fun _ => hshort _ (by decide)) fun hquote => ?_
  refine .ite (fun _ => hshort _ (by decide)) fun hback => ?_
  refine .ite (fun _ => hshort _ (by decide)) fun _ => ?_
  refine .ite (fun _ => hshort _ (by decide)) fun _ => ?_
  refine .ite (fun _ => hshort _ (by decide)) fun _ => ?_
  refine .ite (fun _ => hshort _ (by decide)) fun _ => ?_
  refine .ite (fun _ => hshort _ (by decide)) fun _ => ?_
  refine .ite (fun _ => .unit _) fun hcontrol => ?_
  refine .ite (fun _ => .ite (fun _ => .unit _) fun _ => .pair _ _) fun _ => ?_
  exact .self (by simpa using hquote) (by simpa using hback) hcontrol

/-- However a character is escaped, the text goes on between the quotes. -/
theorem remainder_escape {c : Char} {t : List Char} (h : Escape c t) (depth : Nat)
    (rest : List Char) : remainder .quoted depth (t ++ rest) = remainder .quoted depth rest := by
  cases h with
  | self quote backslash => exact remainder_quoted (by simpa using ⟨quote, backslash⟩) depth rest
  | short letter => rfl
  | unit n => exact remainder_unitEscape n depth rest
  | pair n m => rw [List.append_assoc, remainder_unitEscape, remainder_unitEscape]

theorem remainder_encodeChars (asciiOnly : Bool) (cs : List Char) (depth : Nat) (rest : List Char) :
    remainder .quoted depth (Quoted.encodeChars asciiOnly cs ++ rest) =
      remainder .quoted depth rest := by
  induction cs with
  | nil => rfl
  | cons c cs ih =>
    rw [Quoted.encodeChars, List.append_assoc, remainder_escape (escape_spec asciiOnly c), ih]

/-- **A quoted text is a written value.** -/
theorem written_quote (asciiOnly : Bool) (s : String) : Written (quote asciiOnly s).toList := by
  unfold quote
  rw [String.toList_ofList]
  refine ⟨List.cons_ne_nil _ _, fun depth rest => ?_⟩
  show remainder .quoted depth (Quoted.encodeChars asciiOnly s.toList ++ ['"'] ++ rest) = _
  rw [List.append_assoc, remainder_encodeChars]
  rfl

/-! ## Values of several pieces -/

/-- Brackets make a written value of what passes inside of them. -/
theorem PassesInside.bracket {t : List Char} (h : PassesInside t) : Written ('[' :: t ++ [']']) := by
  refine ⟨List.cons_ne_nil _ _, fun depth rest => ?_⟩
  show remainder .outside (depth + 1) (t ++ [']'] ++ rest) = _
  rw [List.append_assoc, h]
  rfl

theorem PassesInside.brace {t : List Char} (h : PassesInside t) :
    Written ('\x7b' :: t ++ ['\x7d']) := by
  refine ⟨List.cons_ne_nil _ _, fun depth rest => ?_⟩
  show remainder .outside (depth + 1) (t ++ ['\x7d'] ++ rest) = _
  rw [List.append_assoc, h]
  rfl

/-- Texts with commas between them. -/
def commas (parts : List (List Char)) : List Char := [',', ' '].intercalate parts

/-- A comma and a blank stand between two parts. -/
theorem commas_cons (p q : List Char) (parts : List (List Char)) :
    commas (p :: q :: parts) = p ++ ',' :: ' ' :: commas (q :: parts) := by
  simp [commas, List.intercalate]

theorem passesInside_commas {parts : List (List Char)} (h : ∀ p ∈ parts, Passes p) :
    PassesInside (commas parts) := by
  induction parts with
  | nil => exact passes_nil.inside
  | cons p parts ih =>
    obtain ⟨hp, hparts⟩ := List.forall_mem_cons.mp h
    cases parts with
    | nil => simpa [commas, List.intercalate] using hp.inside
    | cons q parts =>
      intro depth rest
      rw [commas_cons, List.append_assoc, hp.inside]
      show remainder .outside (depth + 1) (commas (q :: parts) ++ rest) = _
      exact ih hparts depth rest

/-- What follows the first of some texts with commas between them. -/
theorem exists_commas_cons {p : List Char} (hp : Passes p) (parts : List (List Char)) :
    ∃ rest, commas (p :: parts) = p ++ rest ∧ remainder .outside 0 (commas (p :: parts)) = rest ∧
      ((parts = [] ∧ rest = []) ∨ (parts ≠ [] ∧ rest = ',' :: ' ' :: commas parts)) := by
  cases parts with
  | nil =>
    refine ⟨[], by simp [commas, List.intercalate], ?_, Or.inl ⟨rfl, rfl⟩⟩
    have hcommas : commas [p] = p ++ [] := by simp [commas, List.intercalate]
    rw [hcommas, hp]
    rfl
  | cons q parts =>
    refine ⟨_, commas_cons p q parts, ?_, Or.inr ⟨List.cons_ne_nil _ _, rfl⟩⟩
    rw [commas_cons, hp]
    rfl

/-- **Texts of values with commas between them can be cut in one way only.** -/
theorem commas_injective : ∀ {parts parts' : List (List Char)}, (∀ p ∈ parts, Written p) →
    (∀ p ∈ parts', Written p) → commas parts = commas parts' → parts = parts'
  | [], [], _, _, _ => rfl
  | [], p :: parts, _, hp, heq => by
    obtain ⟨rest, hrest, -, -⟩ := exists_commas_cons (hp p List.mem_cons_self).passes parts
    rw [hrest] at heq
    exact absurd (List.append_eq_nil_iff.mp heq.symm).1 (hp p List.mem_cons_self).ne_nil
  | p :: parts, [], hp, _, heq => by
    obtain ⟨rest, hrest, -, -⟩ := exists_commas_cons (hp p List.mem_cons_self).passes parts
    rw [hrest] at heq
    exact absurd (List.append_eq_nil_iff.mp heq).1 (hp p List.mem_cons_self).ne_nil
  | p :: parts, p' :: parts', h, h', heq => by
    obtain ⟨hp, hparts⟩ := List.forall_mem_cons.mp h
    obtain ⟨hp', hparts'⟩ := List.forall_mem_cons.mp h'
    obtain ⟨rest, hcut, hrem, hrest⟩ := exists_commas_cons hp.passes parts
    obtain ⟨rest', hcut', hrem', hrest'⟩ := exists_commas_cons hp'.passes parts'
    -- the same is left after the first text, so the first texts are the same
    rw [heq, hrem'] at hrem
    subst hrem
    obtain rfl : p = p' := by
      rw [hcut, hcut'] at heq
      exact List.append_cancel_right heq
    rcases hrest with ⟨rfl, rfl⟩ | ⟨hne, rfl⟩
    · rcases hrest' with ⟨rfl, -⟩ | ⟨-, hrest'⟩
      · rfl
      · cases hrest'
    · rcases hrest' with ⟨-, hrest'⟩ | ⟨-, hrest'⟩
      · cases hrest'
      · rw [commas_injective hparts hparts' (by simpa using hrest')]

/-! ## Numbers -/

/-- A character of a decimal number. -/
def isNumeric (c : Char) : Bool := c.isDigit || ['.', '-', '+', 'e'].contains c

/-- The texts of numbers. -/
def NumberText (t : List Char) : Prop :=
  t ≠ [] ∧ (t ∈ ["Infinity".toList, "-Infinity".toList, "NaN".toList] ∨
    ∀ c ∈ t, isNumeric c = true)

theorem isNumeric_toDigits {n : Nat} : ∀ c ∈ Nat.toDigits 10 n, isNumeric c = true := by
  intro c hc
  rw [isNumeric, Nat.isDigit_of_mem_toDigits (by decide) (by decide) hc, Bool.true_or]

theorem isPlain_of_isNumeric {c : Char} (h : isNumeric c = true) : isPlain c = true := by
  have hall : (['"', '[', ']', '\x7b', '\x7d', ','].all fun d => !isNumeric d) = true := by decide
  rw [isPlain, Bool.not_eq_true', List.contains_eq_mem, decide_eq_false_iff_not]
  intro hmem
  simpa [h] using List.all_eq_true.mp hall c hmem

theorem NumberText.isPlain {t : List Char} (h : NumberText t) : ∀ c ∈ t, isPlain c = true := by
  rcases h.2 with hword | hnumeric
  · have hall : (["Infinity".toList, "-Infinity".toList, "NaN".toList].all (·.all Json.isPlain)) =
        true := by decide
    exact List.all_eq_true.mp (List.all_eq_true.mp hall t hword)
  · exact fun c hc => isPlain_of_isNumeric (hnumeric c hc)

/-- Numbers are written values. -/
theorem NumberText.written {t : List Char} (h : NumberText t) : Written t :=
  ⟨h.1, passes_of_plain h.isPlain⟩

theorem numberText_intText (n : Int) : NumberText (intText n).toList := by
  have hdigits : (intText n).toList =
      (if n < 0 then ['-'] else []) ++ Nat.toDigits 10 n.natAbs := by
    unfold intText
    rw [String.toList_append, String.toList_ofList]
    split <;> rfl
  rw [hdigits]
  refine ⟨by simp [Nat.toDigits_ne_nil], Or.inr fun c hc => ?_⟩
  rcases List.mem_append.mp hc with hc | hc
  · split at hc
    · rw [List.mem_singleton.mp hc]
      decide
    · cases hc
  · exact isNumeric_toDigits c hc

theorem isNumeric_positional {digits : List Char} (h : ∀ c ∈ digits, isNumeric c = true)
    (point : Int) : ∀ c ∈ DecimalStyle.positional digits point, isNumeric c = true := by
  have hzeros : ∀ n, ∀ c ∈ List.replicate n '0', isNumeric c = true := by
    intro n c hc
    rw [List.eq_of_mem_replicate hc]
    decide
  unfold DecimalStyle.positional
  split
  · simp only [List.forall_mem_cons, List.forall_mem_append]
    exact ⟨by decide, by decide, hzeros _, h⟩
  split
  · simp only [List.forall_mem_append]
    exact ⟨⟨h, hzeros _⟩, List.all_eq_true.mp (by decide)⟩
  · simp only [List.forall_mem_append, List.forall_mem_cons]
    exact ⟨fun c hc => h c (List.mem_of_mem_take hc), by decide,
      fun c hc => h c (List.mem_of_mem_drop hc)⟩

theorem isNumeric_scientific {style : DecimalStyle} {digits : List Char}
    (h : ∀ c ∈ digits, isNumeric c = true) (point : Int) :
    ∀ c ∈ style.scientific digits point, isNumeric c = true := by
  have hzeros : ∀ n, ∀ c ∈ List.replicate n '0', isNumeric c = true := by
    intro n c hc
    rw [List.eq_of_mem_replicate hc]
    decide
  unfold DecimalStyle.scientific DecimalStyle.padLeft
  simp only [List.forall_mem_append, List.forall_mem_cons]
  refine ⟨?_, by decide, ?_, hzeros _, isNumeric_toDigits⟩
  · split
    · simp
    · exact h
    · simp only [List.forall_mem_cons] at h ⊢
      exact ⟨h.1, by decide, h.2⟩
  · split <;> decide

theorem positional_ne_nil (digits : List Char) (point : Int) :
    DecimalStyle.positional digits point ≠ [] := by
  unfold DecimalStyle.positional
  split
  · exact List.cons_ne_nil _ _
  split
  · simp
  · simp

/-- So are their decimals, in either way to write them, and the three words. -/
theorem numberText_decimals (x : Double) : NumberText (decimals.write x).toList := by
  cases x with
  | nan => exact ⟨by decide, Or.inl (by decide)⟩
  | infinite negative =>
    cases negative with
    | true => exact ⟨by decide, Or.inl (by decide)⟩
    | false => exact ⟨by decide, Or.inl (by decide)⟩
  | finite negative mantissa exponent =>
    unfold DecimalStyle.write
    dsimp only
    rw [String.toList_append, String.toList_ofList]
    have hdigits : ∀ c ∈ Nat.toDigits 10 (Double.shortest mantissa exponent).1,
        isNumeric c = true := isNumeric_toDigits
    refine ⟨?_, Or.inr fun c hc => ?_⟩
    · refine List.append_ne_nil_of_right_ne_nil _ ?_
      split
      · exact positional_ne_nil _ _
      · simp [DecimalStyle.scientific]
    · rcases List.mem_append.mp hc with hc | hc
      · cases negative with
        | true =>
          obtain rfl : c = '-' := by simpa using hc
          decide
        | false => simp at hc
      · split at hc
        · exact isNumeric_positional hdigits _ c hc
        · exact isNumeric_scientific hdigits _ c hc

/-! ## Documents -/

theorem boolText_written (b : Bool) : Written (boolText b).toList := by
  cases b with
  | true => exact ⟨by decide, passes_of_all (by decide)⟩
  | false => exact ⟨by decide, passes_of_all (by decide)⟩

/-- **Every scalar is.** -/
theorem written_writeScalar {style : Style} {s : Scalar} {t : String}
    (h : writeScalar style s = .ok t) : Written t.toList := by
  cases s with
  | null =>
    obtain rfl : "null" = t := Except.ok.inj h
    exact ⟨by decide, passes_of_all (by decide)⟩
  | bool b =>
    obtain rfl : boolText b = t := Except.ok.inj h
    exact boolText_written b
  | int n =>
    obtain rfl : intText n = t := Except.ok.inj h
    exact (numberText_intText n).written
  | float x =>
    obtain rfl : decimals.write x = t := Except.ok.inj h
    exact (numberText_decimals x).written
  | text s =>
    obtain rfl : quote style.asciiOnly s = t := Except.ok.inj h
    exact written_quote _ _
  | date d =>
    rw [writeScalar] at h
    by_cases hdays : style.days = true
    · rw [if_pos hdays] at h
      rw [← Except.ok.inj h]
      exact written_quote _ _
    · rw [if_neg hdays] at h
      cases h
  | moment m =>
    rw [writeScalar] at h
    by_cases hdays : style.days = true
    · rw [if_pos hdays] at h
      rw [← Except.ok.inj h]
      exact written_quote _ _
    · rw [if_neg hdays] at h
      cases h

/-- Two characters at the start of a text. -/
theorem pair_isPrefix_cons {a b c : Char} {t : List Char} :
    [a, b] <+: c :: t ↔ c = a ∧ t.head? = some b := by
  cases t with
  | nil => simp
  | cons d t => simp [List.cons_prefix_cons, eq_comm]

theorem toList_join (parts : List String) :
    (join ", " parts).toList = commas (parts.map String.toList) := by
  unfold join commas
  rw [String.toList_intercalate]
  rfl

/-- Sorting loses no field. -/
theorem insertField_perm (field : Scalar × String) (fields : List (Scalar × String)) :
    (insertField field fields).Perm (field :: fields) := by
  induction fields with
  | nil => exact .refl _
  | cons other rest ih =>
    unfold insertField
    split
    · exact (ih.cons other).trans (.swap field other rest)
    · exact .refl _

/-- Sorting puts the fields in another order. -/
theorem sortFields_perm {fields sorted : List (Scalar × String)}
    (h : sortFields fields = .ok sorted) : sorted.Perm fields := by
  have hfoldr : (fields.foldr insertField []).Perm fields := by
    clear h
    induction fields with
    | nil => exact .refl _
    | cons field fields ih => exact (insertField_perm field _).trans (ih.cons field)
  unfold sortFields at h
  split at h
  · cases h
    exact hfoldr
  · cases h

theorem written_writeField {style : Style} {field : Scalar × String} {t : String}
    (hfield : Written field.2.toList) (h : writeField style field = .ok t) : Written t.toList := by
  obtain ⟨name, -, h⟩ := Outcome.bind_eq_ok.mp h
  cases h
  have hcolon : Passes ": ".toList := passes_of_all (by decide)
  rw [String.toList_append, String.toList_append]
  refine ⟨?_, ((written_quote _ _).passes.append hcolon).append hfield.passes⟩
  exact List.append_ne_nil_of_right_ne_nil _ hfield.ne_nil

/-- A list of written values is one. -/
theorem written_list {parts : List String} (h : ∀ p ∈ parts, Written p.toList) :
    Written ("[" ++ join ", " parts ++ "]").toList := by
  rw [String.toList_append, String.toList_append, toList_join]
  refine (passesInside_commas fun p hp => ?_).bracket
  obtain ⟨part, hpart, rfl⟩ := List.mem_map.mp hp
  exact (h part hpart).passes

/-- So is an object. -/
theorem written_object {parts : List String} (h : ∀ p ∈ parts, Written p.toList) :
    Written ("\x7b" ++ join ", " parts ++ "\x7d").toList := by
  rw [String.toList_append, String.toList_append, toList_join]
  refine (passesInside_commas fun p hp => ?_).brace
  obtain ⟨part, hpart, rfl⟩ := List.mem_map.mp hp
  exact (h part hpart).passes

/-- The text of an object, with the texts of its fields between commas. -/
theorem write_object {style : Style} {fields : Fields} {t : String}
    (h : write style (.object fields) = .ok t) :
    ∃ (values parts : List (Scalar × String)) (written : List String),
      writeValues style fields = .ok values ∧ parts.Perm values ∧
      parts.mapM (writeField style) = .ok written ∧
      t = "\x7b" ++ join ", " written ++ "\x7d" := by
  rw [write] at h
  obtain ⟨values, hvalues, h⟩ := Outcome.bind_eq_ok.mp h
  by_cases hsorted : style.sorted = true
  · simp only [if_pos hsorted] at h
    obtain ⟨parts, hparts, h⟩ := Outcome.bind_eq_ok.mp h
    obtain ⟨written, hwritten, h⟩ := Outcome.bind_eq_ok.mp h
    exact ⟨values, parts, written, hvalues, sortFields_perm hparts, hwritten, (Except.ok.inj h).symm⟩
  · simp only [if_neg hsorted] at h
    obtain ⟨parts, hparts, h⟩ := Outcome.bind_eq_ok.mp h
    obtain rfl : values = parts := Except.ok.inj hparts
    obtain ⟨written, hwritten, h⟩ := Outcome.bind_eq_ok.mp h
    exact ⟨values, values, written, hvalues, .refl _, hwritten, (Except.ok.inj h).symm⟩

mutual

/-- **Every document is written as the text of one value.** -/
theorem written_write {style : Style} : ∀ {v : Value} {t : String}, write style v = .ok t →
    Written t.toList
  | .scalar s, t, h => written_writeScalar (by rwa [write] at h)
  | .list items, t, h => by
    rw [write] at h
    obtain ⟨parts, hparts, h⟩ := Outcome.bind_eq_ok.mp h
    cases h
    exact written_list (written_writeAll hparts)
  | .object fields, t, h => by
    obtain ⟨values, parts, written, hvalues, hperm, hwritten, rfl⟩ := write_object h
    refine written_object fun p hp => ?_
    obtain ⟨part, hpart, hp⟩ := Outcome.exists_left_of_mem (Outcome.forall₂_of_mapM hwritten) hp
    exact written_writeField (written_writeValues hvalues part (hperm.subset hpart)) hp

theorem written_writeAll {style : Style} : ∀ {vs : List Value} {parts : List String},
    writeAll style vs = .ok parts → ∀ p ∈ parts, Written p.toList
  | [], parts, h, p, hp => by
    rw [writeAll] at h
    cases h
    cases hp
  | v :: vs, parts, h, p, hp => by
    rw [writeAll] at h
    obtain ⟨part, hpart, h⟩ := Outcome.bind_eq_ok.mp h
    obtain ⟨rest, hrest, h⟩ := Outcome.bind_eq_ok.mp h
    cases h
    rcases List.mem_cons.mp hp with rfl | hp
    · exact written_write hpart
    · exact written_writeAll hrest p hp

theorem written_writeValues {style : Style} : ∀ {fields : List (Scalar × Value)}
    {parts : List (Scalar × String)}, writeValues style fields = .ok parts →
    ∀ p ∈ parts, Written p.2.toList
  | [], parts, h, p, hp => by
    rw [writeValues] at h
    cases h
    cases hp
  | (k, v) :: fields, parts, h, p, hp => by
    rw [writeValues] at h
    obtain ⟨part, hpart, h⟩ := Outcome.bind_eq_ok.mp h
    obtain ⟨rest, hrest, h⟩ := Outcome.bind_eq_ok.mp h
    cases h
    rcases List.mem_cons.mp hp with rfl | hp
    · exact written_write hpart
    · exact written_writeValues hrest p hp

end

/-! ## Fields -/

/-- A text that is written as it is and that no number or other scalar has. -/
def isWord (k : String) : Bool :=
  k.toList.all (fun c => Quoted.escape true c == [c] && Quoted.escape false c == [c]) &&
    k.toList.any (fun c => !isNumeric c) &&
    !(["null", "true", "false", "Infinity", "-Infinity", "NaN"].contains k)

variable {k : String}

/-- A word is a name that is written as it is, and no number. -/
theorem isWord_iff : isWord k = true ↔
    (∀ c ∈ k.toList, Quoted.escape true c = [c] ∧ Quoted.escape false c = [c]) ∧
    (∃ c ∈ k.toList, isNumeric c = false) ∧
    k ∉ ["null", "true", "false", "Infinity", "-Infinity", "NaN"] := by
  simp only [isWord, Bool.and_eq_true, List.all_eq_true, beq_iff_eq, List.any_eq_true,
    Bool.not_eq_true', List.contains_eq_mem, decide_eq_false_iff_not, and_assoc]

theorem not_numberText (hk : isWord k = true) : ¬ NumberText k.toList := by
  obtain ⟨-, ⟨c, hc, hnot⟩, hwords⟩ := isWord_iff.mp hk
  rintro ⟨-, hword | hnumeric⟩
  · simp only [List.mem_cons, List.not_mem_nil, or_false, String.toList_inj] at hword hwords
    rcases hword with rfl | rfl | rfl <;> simp at hwords
  · rw [hnumeric c hc] at hnot
    cases hnot

/-- Only the text itself names a field by a word. -/
theorem eq_text_of_nameText (hk : isWord k = true) {name : Scalar} (h : nameText name = .ok k) :
    name = .text k := by
  have hwords := (isWord_iff.mp hk).2.2
  cases name with
  | text s => rw [Except.ok.inj h]
  | null =>
    rw [← Except.ok.inj h] at hwords
    exact absurd (by decide) hwords
  | bool b =>
    rw [← Except.ok.inj h] at hwords
    cases b <;> exact absurd (by decide) hwords
  | int n =>
    rw [← Except.ok.inj h] at hk
    exact absurd (numberText_intText n) (not_numberText hk)
  | float x =>
    rw [← Except.ok.inj h] at hk
    exact absurd (numberText_decimals x) (not_numberText hk)
  | date d => cases h
  | moment m => cases h

/-- The characters of a word stand for themselves between quotes. -/
theorem escape_word (hk : isWord k = true) (asciiOnly : Bool) :
    ∀ c ∈ k.toList, Quoted.escape asciiOnly c = [c] := by
  intro c hc
  cases asciiOnly with
  | true => exact ((isWord_iff.mp hk).1 c hc).1
  | false => exact ((isWord_iff.mp hk).1 c hc).2

/-- What needs no escape is encoded as it is. -/
theorem encodeChars_of_escape {asciiOnly : Bool} {word : List Char}
    (h : ∀ c ∈ word, Quoted.escape asciiOnly c = [c]) : Quoted.encodeChars asciiOnly word = word := by
  induction word with
  | nil => rfl
  | cons c word ih =>
    obtain ⟨hc, hword⟩ := List.forall_mem_cons.mp h
    rw [Quoted.encodeChars, hc, ih hword]
    rfl

/-- Between quotes, a word is only written for itself. -/
theorem encodeChars_cut {asciiOnly : Bool} : ∀ {cs word rest rest' : List Char},
    (∀ c ∈ word, Quoted.escape asciiOnly c = [c]) →
    Quoted.encodeChars asciiOnly cs ++ '"' :: rest = word ++ '"' :: rest' → cs = word ∧ rest = rest'
  | [], [], rest, rest', _, h => ⟨rfl, (List.cons.inj h).2⟩
  | [], w :: word, rest, rest', hw, h => by
    obtain ⟨rfl, -⟩ := List.cons.inj h
    exact absurd (hw _ List.mem_cons_self) (by simp [Quoted.escape])
  | c :: cs, word, rest, rest', hw, h => by
    rw [Quoted.encodeChars, List.append_assoc] at h
    -- an escape starts with a backslash, which the word does not hold
    have hback : ∀ {t}, Quoted.escape asciiOnly c ≠ '\\' :: t := by
      intro t ht
      rw [ht] at h
      cases word with
      | nil => cases (List.cons.inj h).1
      | cons w word =>
        obtain ⟨rfl, -⟩ := List.cons.inj h
        exact absurd (hw _ List.mem_cons_self) (by simp [Quoted.escape])
    have hspec := escape_spec asciiOnly c
    generalize Quoted.escape asciiOnly c = e at h hback hspec
    cases hspec with
    | short letter => exact absurd rfl hback
    | unit n => exact absurd rfl hback
    | pair n m => exact absurd rfl hback
    | self hquote _ =>
      cases word with
      | nil => exact absurd (List.cons.inj h).1 hquote
      | cons w word =>
        obtain ⟨rfl, htail⟩ := List.cons.inj h
        obtain ⟨hcs, hrest⟩ := encodeChars_cut (List.forall_mem_cons.mp hw).2 htail
        exact ⟨by rw [hcs], hrest⟩

theorem forall₂_writeValues {style : Style} : ∀ {fields : List (Scalar × Value)}
    {values : List (Scalar × String)}, writeValues style fields = .ok values →
    List.Forall₂ (fun f p => f.1 = p.1 ∧ write style f.2 = .ok p.2) fields values
  | [], values, h => by
    rw [writeValues] at h
    rw [← Except.ok.inj h]
    exact .nil
  | (k, v) :: fields, values, h => by
    rw [writeValues] at h
    obtain ⟨part, hpart, h⟩ := Outcome.bind_eq_ok.mp h
    obtain ⟨rest, hrest, h⟩ := Outcome.bind_eq_ok.mp h
    rw [← Except.ok.inj h]
    exact .cons ⟨rfl, hpart⟩ (forall₂_writeValues hrest)

/-- A field and its text. -/
def FieldText (style : Style) (field : Scalar × Value) (t : String) : Prop :=
  ∃ name part, nameText field.1 = .ok name ∧ write style field.2 = .ok part ∧
    t = quote style.asciiOnly name ++ ": " ++ part

/-- A field with a word for a name tells its name and its text. -/
theorem FieldText.of_word {style : Style} (hk : isWord k = true) {field : Scalar × Value}
    {part : String} (h : FieldText style field (quote style.asciiOnly k ++ ": " ++ part)) :
    field.1 = .text k ∧ write style field.2 = .ok part := by
  obtain ⟨name, part', hname, hpart, heq⟩ := h
  have hwords := escape_word hk style.asciiOnly
  replace heq := congrArg String.toList heq
  simp only [quote, String.toList_append, String.toList_ofList, Quoted.encode, List.cons_append,
    List.append_assoc, encodeChars_of_escape hwords, List.cons.injEq, true_and,
    List.nil_append] at heq
  obtain ⟨hcs, hrest⟩ := encodeChars_cut hwords heq.symm
  rw [String.toList_inj.mp hcs] at hname
  have htext : part'.toList = part.toList := List.append_cancel_left hrest
  rw [String.toList_inj.mp htext] at hpart
  exact ⟨eq_text_of_nameText hk hname, hpart⟩

/-- The fields of an object and their texts, in some order. -/
structure FieldTexts (style : Style) (fields : Fields) (texts : List String) : Prop where
  written : ∀ t ∈ texts, Written t.toList
  text_of_field : ∀ f ∈ fields, ∃ t ∈ texts, FieldText style f t
  field_of_text : ∀ t ∈ texts, ∃ f ∈ fields, FieldText style f t

/-- **The text of an object is made of the texts of its fields.** -/
theorem fieldTexts_of_write {style : Style} {fields : Fields} {t : String}
    (h : write style (.object fields) = .ok t) :
    ∃ texts, t = "\x7b" ++ join ", " texts ++ "\x7d" ∧ FieldTexts style fields texts := by
  obtain ⟨values, parts, texts, hvalues, hperm, htexts, rfl⟩ := write_object h
  have hfields := forall₂_writeValues hvalues
  have hparts := Outcome.forall₂_of_mapM htexts
  have hfield : ∀ {f : Scalar × Value} {p : Scalar × String} {t : String},
      f.1 = p.1 ∧ write style f.2 = .ok p.2 → writeField style p = .ok t → FieldText style f t := by
    intro f p t hf hp
    obtain ⟨name, hname, hp⟩ := Outcome.bind_eq_ok.mp hp
    rw [← hf.1] at hname
    exact ⟨name, p.2, hname, hf.2, (Except.ok.inj hp).symm⟩
  refine ⟨texts, rfl, fun t ht => ?_, fun f hf => ?_, fun t ht => ?_⟩
  · obtain ⟨p, hp, ht⟩ := Outcome.exists_left_of_mem hparts ht
    exact written_writeField (written_writeValues hvalues p (hperm.subset hp)) ht
  · obtain ⟨p, hp, hfp⟩ := Outcome.exists_right_of_mem hfields hf
    obtain ⟨t, ht, hpt⟩ := Outcome.exists_right_of_mem hparts (hperm.symm.subset hp)
    exact ⟨t, ht, hfield hfp hpt⟩
  · obtain ⟨p, hp, hpt⟩ := Outcome.exists_left_of_mem hparts ht
    obtain ⟨f, hf, hfp⟩ := Outcome.exists_left_of_mem hfields (hperm.subset hp)
    exact ⟨f, hf, hfield hfp hpt⟩

/-- A text in brackets or braces tells the texts between its commas. -/
theorem texts_eq {texts texts' : List String} {first last : String}
    (h : ∀ t ∈ texts, Written t.toList) (h' : ∀ t ∈ texts', Written t.toList)
    (heq : first ++ join ", " texts ++ last = first ++ join ", " texts' ++ last) : texts = texts' := by
  have hlist := congrArg String.toList heq
  simp only [String.toList_append, toList_join, List.append_assoc] at hlist
  replace hlist := List.append_cancel_right (List.append_cancel_left hlist)
  have hmap := commas_injective (by simpa using h) (by simpa using h') hlist
  exact List.map_injective_iff.mpr (fun _ _ h => String.toList_inj.mp h) hmap

/-- **Objects with one text have the same fields, as far as their names are words, with equal texts
under them.** -/
theorem exists_field_of_write {style : Style} {fields fields' : Fields} {t : String}
    (h : write style (.object fields) = .ok t) (h' : write style (.object fields') = .ok t)
    (hk : isWord k = true) {v : Value} (hv : (.text k, v) ∈ fields) :
    ∃ v' part, (.text k, v') ∈ fields' ∧ write style v = .ok part ∧ write style v' = .ok part := by
  obtain ⟨texts, rfl, htexts⟩ := fieldTexts_of_write h
  obtain ⟨texts', heq, htexts'⟩ := fieldTexts_of_write h'
  obtain rfl := texts_eq htexts.written htexts'.written heq
  obtain ⟨t, ht, name, part, hname, hpart, rfl⟩ := htexts.text_of_field _ hv
  obtain rfl : k = name := Except.ok.inj hname
  obtain ⟨f, hf, hft⟩ := htexts'.field_of_text _ ht
  obtain ⟨hname', hpart'⟩ := hft.of_word hk
  obtain ⟨name', v'⟩ := f
  obtain rfl : name' = .text k := hname'
  exact ⟨v', part, hf, hpart, hpart'⟩

/-! ## Texts inside a text -/

theorem contains_of_infix {part text : List Char} (h : part <:+: text) :
    contains part text = true := by
  induction text with
  | nil =>
    rw [List.infix_nil.mp h]
    rfl
  | cons c cs ih =>
    rw [contains, Bool.or_eq_true]
    rcases List.infix_cons_iff.mp h with hstart | hinfix
    · exact Or.inl (startsWith_iff_isPrefix.mpr hstart)
    · exact Or.inr (ih hinfix)

/-- Each part is found in the whole. -/
theorem infix_commas {p : List Char} {parts : List (List Char)} (hp : p ∈ parts) :
    p <:+: commas parts := by
  induction parts with
  | nil => cases hp
  | cons q parts ih =>
    cases parts with
    | nil =>
      rw [List.mem_singleton.mp hp]
      simp [commas, List.intercalate]
    | cons r parts =>
      rw [commas_cons]
      rcases List.mem_cons.mp hp with rfl | hp
      · exact (List.prefix_append _ _).isInfix
      · exact (ih hp).trans ⟨q ++ [',', ' '], [], by simp⟩

/-- The text of an object holds the names and the values of its fields. -/
theorem infix_of_write {style : Style} {fields : Fields} {t : String}
    (h : write style (.object fields) = .ok t) {v : Value} (hv : (.text k, v) ∈ fields) :
    ∃ part, write style v = .ok part ∧ (quote style.asciiOnly k).toList <:+: t.toList ∧
      part.toList <:+: t.toList := by
  obtain ⟨texts, rfl, htexts⟩ := fieldTexts_of_write h
  obtain ⟨t, ht, name, part, hname, hpart, rfl⟩ := htexts.text_of_field _ hv
  obtain rfl : k = name := Except.ok.inj hname
  have hwhole : ("\x7b" ++ join ", " texts ++ "\x7d").toList =
      "\x7b".toList ++ commas (texts.map String.toList) ++ "\x7d".toList := by
    rw [String.toList_append, String.toList_append, toList_join]
  have hfield : (quote style.asciiOnly k ++ ": " ++ part).toList <:+:
      ("\x7b" ++ join ", " texts ++ "\x7d").toList := by
    rw [hwhole]
    exact (infix_commas (List.mem_map_of_mem ht)).trans ⟨_, _, rfl⟩
  rw [String.toList_append, String.toList_append, List.append_assoc] at hfield
  refine ⟨part, hpart, (List.prefix_append _ _).isInfix.trans hfield, List.IsInfix.trans ?_ hfield⟩
  exact ⟨(quote style.asciiOnly k).toList ++ ": ".toList, [], by simp⟩

end SchemaForge.Json
