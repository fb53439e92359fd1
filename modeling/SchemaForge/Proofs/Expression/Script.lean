import SchemaForge.Expression.Literal
import SchemaForge.Proofs.Text.QuotedBody
import SchemaForge.Proofs.Text.Words

/-!
# Reading the literals of a program text

A program text is read here as the generated language reads it, as far as string and template
literals go. Outside of literals only braces count, since a hole in a template goes up to the brace
that closes it. A string literal ends at the quote that it starts with and may not contain a line
break; in a template a backslash escapes what comes after it, and a dollar sign with an opening brace
starts a hole.

What is read off a text are the templates in it: each of their characters with the part that it plays.
-/

namespace SchemaForge.Script

open Text

/-! ## The reader -/

/-- What a closing brace closes. -/
inductive Frame where
  | brace
  | hole
deriving DecidableEq

/-- Where in a text a character stands. -/
inductive Place where
  | code
  | quoted (quote : Char)
  | quotedEscape (quote : Char)
  | template
  /-- After a dollar sign in a template. -/
  | dollar
  | templateEscape
deriving DecidableEq

structure State where
  place : Place
  /-- What is open around the place, the innermost first. -/
  stack : List Frame
deriving DecidableEq

/-- The parts of a template. -/
inductive Event where
  | opening
  /-- A character that stands for itself. -/
  | char (c : Char)
  /-- An escape, with the character after the backslash. -/
  | escape (c : Char)
  | hole
  | resume
  | closing
deriving DecidableEq

/-- A character outside of literals. -/
def codeStep (stack : List Frame) (c : Char) : Option (State × List Event) :=
  if c = '"' ∨ c = '\x27' then some (⟨.quoted c, stack⟩, [])
  else if c = '\x60' then some (⟨.template, stack⟩, [.opening])
  else if c = '\x7b' then some (⟨.code, .brace :: stack⟩, [])
  else if c = '\x7d' then
    match stack with
    | [] => none
    | .brace :: stack => some (⟨.code, stack⟩, [])
    | .hole :: stack => some (⟨.template, stack⟩, [.resume])
  else some (⟨.code, stack⟩, [])

/-- A character of a template. -/
def templateStep (stack : List Frame) (c : Char) : State × List Event :=
  if c = '\x60' then (⟨.code, stack⟩, [.closing])
  else if c = '\\' then (⟨.templateEscape, stack⟩, [])
  else if c = '$' then (⟨.dollar, stack⟩, [])
  else (⟨.template, stack⟩, [.char c])

/-- Reads a character; a dollar sign stands for itself as soon as no brace follows. -/
def step : State → Char → Option (State × List Event)
  | ⟨.code, stack⟩, c => codeStep stack c
  | ⟨.quoted quote, stack⟩, c =>
    if Quoted.isLineBreak c then none
    else if c = '\\' then some (⟨.quotedEscape quote, stack⟩, [])
    else if c = quote then some (⟨.code, stack⟩, [])
    else some (⟨.quoted quote, stack⟩, [])
  | ⟨.quotedEscape quote, stack⟩, _ => some (⟨.quoted quote, stack⟩, [])
  | ⟨.template, stack⟩, c => some (templateStep stack c)
  | ⟨.dollar, stack⟩, c =>
    if c = '\x7b' then some (⟨.code, .hole :: stack⟩, [.hole])
    else some ((templateStep stack c).1, .char '$' :: (templateStep stack c).2)
  | ⟨.templateEscape, stack⟩, c => some (⟨.template, stack⟩, [.escape c])

/-- Reads a text from a state on: the state at its end, and what was read. -/
def scan : State → List Char → Option (State × List Event)
  | s, [] => some (s, [])
  | s, c :: cs => (step s c).bind fun r => (scan r.1 cs).map fun q => (q.1, r.2 ++ q.2)

/-- Reads a whole text, in which every literal and every brace has to be closed. -/
def read (cs : List Char) : Option (List Event) :=
  match scan ⟨.code, []⟩ cs with
  | some (⟨.code, []⟩, es) => some es
  | _ => none

theorem read_eq_some {cs : List Char} {es : List Event} :
    read cs = some es ↔ scan ⟨.code, []⟩ cs = some (⟨.code, []⟩, es) := by
  unfold read
  split
  · rename_i es' heq
    rw [heq]
    simp
  · rename_i hother
    refine iff_of_false (fun h => nomatch h) fun h => hother es h

/-! ## Reading in pieces -/

variable {s t u : State} {es fs : List Event} {stack : List Frame}

theorem scan_cons {c : Char} (h : step s c = some (t, es)) (cs : List Char) :
    scan s (c :: cs) = (scan t cs).map fun r => (r.1, es ++ r.2) := by
  rw [scan, h]
  rfl

/-- What is left to read after a piece. -/
theorem scan_append {a : List Char} (h : scan s a = some (t, es)) (b : List Char) :
    scan s (a ++ b) = (scan t b).map fun r => (r.1, es ++ r.2) := by
  induction a generalizing s es with
  | nil =>
    cases h
    cases hb : scan t b <;> simp [hb]
  | cons c a ih =>
    cases hstep : step s c with
    | none =>
      rw [scan, hstep] at h
      cases h
    | some r =>
      obtain ⟨s', es₁⟩ := r
      rw [scan_cons hstep, Option.map_eq_some_iff] at h
      obtain ⟨⟨t', es₂⟩, hscan, heq⟩ := h
      cases heq
      rw [List.cons_append, scan_cons hstep, ih hscan, Option.map_map]
      simp [Function.comp_def]

theorem scan_append_some {a b : List Char} (ha : scan s a = some (t, es))
    (hb : scan t b = some (u, fs)) : scan s (a ++ b) = some (u, es ++ fs) := by
  rw [scan_append ha, hb]
  rfl

/-- A piece in which no part of a template is read. -/
theorem scan_silent {a : List Char} (h : scan s a = some (t, [])) (b : List Char) :
    scan s (a ++ b) = scan t b := by
  rw [scan_append h]
  cases scan t b <;> rfl

theorem scan_append_iff {a : List Char} (h : scan s a = some (t, es)) {b : List Char} :
    scan s (a ++ b) = some (u, es ++ fs) ↔ scan t b = some (u, fs) := by
  rw [scan_append h, Option.map_eq_some_iff]
  constructor
  · rintro ⟨⟨u', fs'⟩, hb, heq⟩
    simp only [Prod.mk.injEq, List.append_cancel_left_eq] at heq
    rw [hb, heq.1, heq.2]
  · exact fun hb => ⟨(u, fs), hb, rfl⟩

/-! ## Code -/

/-- A text that leaves the reader where it was, outside of literals. -/
def Neutral (a : List Char) : Prop := ∀ stack, scan ⟨.code, stack⟩ a = some (⟨.code, stack⟩, [])

theorem neutral_nil : Neutral [] := fun _ => rfl

theorem Neutral.append {a b : List Char} (ha : Neutral a) (hb : Neutral b) : Neutral (a ++ b) :=
  fun stack => scan_append_some (ha stack) (hb stack)

/-- A character that starts no literal and is no brace. -/
def isPlainCode (c : Char) : Bool := !(['"', '\x27', '\x60', '\x7b', '\x7d'].contains c)

theorem neutral_of_plain {a : List Char} (h : a.all isPlainCode = true) : Neutral a := by
  induction a with
  | nil => exact neutral_nil
  | cons c a ih =>
    obtain ⟨hc, ha⟩ := Bool.and_eq_true_iff.mp h
    refine fun stack => ?_
    have hstep : step ⟨.code, stack⟩ c = some (⟨.code, stack⟩, []) := by
      simp only [isPlainCode, Bool.not_eq_true', List.contains_eq_mem, List.mem_cons,
        List.not_mem_nil, or_false, decide_eq_false_iff_not, not_or] at hc
      obtain ⟨h₁, h₂, h₃, h₄, h₅⟩ := hc
      simp only [step, codeStep, h₁, h₂, h₃, h₄, h₅, or_self, if_false]
    rw [scan_cons hstep, ih ha]
    rfl

theorem scan_quoted {body : List Char} (h : Quoted.isBody body = true) (stack : List Frame) :
    scan ⟨.quoted '"', stack⟩ (body ++ ['"']) = some (⟨.code, stack⟩, []) := by
  induction body using backslashRec with
  | nil => rfl
  | last => cases h
  | pair c cs ih =>
    rw [Quoted.isBody_pair, Bool.and_eq_true] at h
    have hpair : scan ⟨.quoted '"', stack⟩ ['\\', c] = some (⟨.quoted '"', stack⟩, []) := rfl
    exact scan_append_some hpair (ih h.2)
  | bare c cs hback ih =>
    rw [Quoted.isBody_cons hback, Bool.and_eq_true, Bool.and_eq_true, Bool.not_eq_true',
      bne_iff_ne] at h
    obtain ⟨⟨hquote, hline⟩, hcs⟩ := h
    have hstep : step ⟨.quoted '"', stack⟩ c = some (⟨.quoted '"', stack⟩, []) := by
      simp only [step, hline, hback, hquote, if_false, Bool.false_eq_true]
    rw [List.cons_append, scan_cons hstep, ih hcs]
    rfl

/-- **A quoted text is closed where it ends, whatever it is.** -/
theorem neutral_quote (asciiOnly : Bool) (s : String) :
    Neutral (Json.quote asciiOnly s).toList := by
  intro stack
  rw [Json.quote, String.toList_ofList, Quoted.encode]
  have hquote : step ⟨.code, stack⟩ '"' = some (⟨.quoted '"', stack⟩, []) := rfl
  rw [scan_cons hquote, scan_quoted (Quoted.isBody_encodeChars _ _)]
  rfl

theorem neutral_join {sep : String} (hsep : Neutral sep.toList) {parts : List String}
    (h : ∀ p ∈ parts, Neutral p.toList) : Neutral (join sep parts).toList := by
  rw [join, String.toList_intercalate]
  induction parts with
  | nil => exact neutral_nil
  | cons p parts ih =>
    obtain ⟨hp, hparts⟩ := List.forall_mem_cons.mp h
    cases parts with
    | nil => simpa using hp
    | cons q parts =>
      rw [List.map_cons, List.map_cons, List.intercalate_cons_cons]
      exact (hp.append hsep).append (ih hparts)

theorem isPlainCode_of_isNameChar {c : Char} (h : Literal.isNameChar c = true) :
    isPlainCode c = true := by
  have hall : (['"', '\x27', '\x60', '\x7b', '\x7d'].all fun d => !Literal.isNameChar d) = true := by
    decide
  rw [isPlainCode, Bool.not_eq_true', List.contains_eq_mem, decide_eq_false_iff_not]
  intro hmem
  simpa [h] using List.all_eq_true.mp hall c hmem

theorem isNameChar_of_isPlainName {cs : List Char} (h : Literal.isPlainName cs = true) :
    ∀ c ∈ cs, Literal.isNameChar c = true := by
  cases cs with
  | nil => cases h
  | cons c cs =>
    rw [Literal.isPlainName, Bool.and_eq_true, List.all_eq_true] at h
    refine List.forall_mem_cons.mpr ⟨?_, h.2⟩
    have hstart := h.1
    simp only [Literal.isNameStart, Literal.isNameChar, Char.isAlphanum, Bool.or_eq_true] at hstart ⊢
    rcases hstart with (halpha | hlow) | hdollar
    · exact Or.inl (Or.inl (Or.inl halpha))
    · exact Or.inl (Or.inr hlow)
    · exact Or.inr hdollar

/-- A name that stands without quotes is an identifier, perhaps with a line feed after it. -/
theorem isPlainCode_of_isUnquoted {name : String} (h : Literal.isUnquoted name = true) :
    ∀ c ∈ name.toList, isPlainCode c = true := by
  intro c hc
  rcases Naming.upToLineEnd_iff.mp h with hplain | ⟨before, hplain, hname⟩
  · exact isPlainCode_of_isNameChar (isNameChar_of_isPlainName hplain c hc)
  · rw [hname, List.mem_append, List.mem_singleton] at hc
    rcases hc with hc | rfl
    · exact isPlainCode_of_isNameChar (isNameChar_of_isPlainName hplain c hc)
    · decide

/-- **A property that is read by its name is read without a literal, or with one that is closed.** -/
theorem neutral_access {target : String} (htarget : Neutral target.toList) (name : String) :
    Neutral (Literal.access target name).toList := by
  unfold Literal.access
  split
  · rename_i hname
    simp only [String.toList_append]
    have hdot : Neutral ".".toList := neutral_of_plain (by decide)
    have hplain := List.all_eq_true.mpr (isPlainCode_of_isUnquoted hname)
    exact (htarget.append hdot).append (neutral_of_plain hplain)
  · simp only [String.toList_append]
    have hopen : Neutral "[".toList := neutral_of_plain (by decide)
    have hclose : Neutral "]".toList := neutral_of_plain (by decide)
    exact ((htarget.append hopen).append (neutral_quote false name)).append hclose

/-! ## Templates -/

/-- A text that stands for itself in a template: it has no backtick, no backslash and no start of a
hole. -/
structure Plain (text : List Char) : Prop where
  backtick : '\x60' ∉ text
  backslash : '\\' ∉ text
  hole : ¬ ['$', '\x7b'] <:+: text

theorem plain_nil : Plain [] := ⟨List.not_mem_nil, List.not_mem_nil, by simp⟩

theorem plain_cons {c : Char} {cs : List Char} :
    Plain (c :: cs) ↔ (c ≠ '\x60' ∧ c ≠ '\\' ∧ ¬ (c = '$' ∧ cs.head? = some '\x7b')) ∧ Plain cs := by
  constructor
  · rintro ⟨hbacktick, hbackslash, hhole⟩
    rw [List.mem_cons, not_or] at hbacktick hbackslash
    rw [List.infix_cons_iff, not_or, Json.pair_isPrefix_cons] at hhole
    exact ⟨⟨Ne.symm hbacktick.1, Ne.symm hbackslash.1, hhole.1⟩,
      hbacktick.2, hbackslash.2, hhole.2⟩
  · rintro ⟨⟨hbacktick, hbackslash, hhole⟩, h⟩
    refine ⟨?_, ?_, ?_⟩
    · rw [List.mem_cons, not_or]
      exact ⟨Ne.symm hbacktick, h.backtick⟩
    · rw [List.mem_cons, not_or]
      exact ⟨Ne.symm hbackslash, h.backslash⟩
    · rw [List.infix_cons_iff, not_or, Json.pair_isPrefix_cons]
      exact ⟨hhole, h.hole⟩

instance decidablePlain : (cs : List Char) → Decidable (Plain cs)
  | [] => .isTrue plain_nil
  | c :: cs =>
    have := decidablePlain cs
    decidable_of_iff
      ((c ≠ '\x60' ∧ c ≠ '\\' ∧ ¬ (c = '$' ∧ cs.head? = some '\x7b')) ∧ Plain cs) plain_cons.symm

/-- A dollar sign stands for itself if no brace follows. -/
theorem scan_dollar {c : Char} (h : c ≠ '\x7b') (cs : List Char) :
    scan ⟨.dollar, stack⟩ (c :: cs) =
      (scan ⟨.template, stack⟩ (c :: cs)).map fun r => (r.1, .char '$' :: r.2) := by
  have hstep : step ⟨.template, stack⟩ c = some (templateStep stack c) := rfl
  have hdollar : step ⟨.dollar, stack⟩ c =
      some ((templateStep stack c).1, .char '$' :: (templateStep stack c).2) := by
    rw [step, if_neg h]
  rw [scan_cons hdollar, scan_cons hstep, Option.map_map]
  rfl

/-- A plain character of a template is read as itself. -/
theorem scan_template_cons {c d : Char} {cs : List Char} (hbacktick : c ≠ '\x60')
    (hbackslash : c ≠ '\\') (hhole : ¬ (c = '$' ∧ d = '\x7b')) :
    scan ⟨.template, stack⟩ (c :: d :: cs) =
      (scan ⟨.template, stack⟩ (d :: cs)).map fun r => (r.1, .char c :: r.2) := by
  by_cases hdollar : c = '$'
  · subst hdollar
    have hstep : step ⟨.template, stack⟩ '$' = some (⟨.dollar, stack⟩, []) := rfl
    rw [scan_cons hstep, scan_dollar (fun hd => hhole ⟨rfl, hd⟩), Option.map_map]
    rfl
  · have hstep : step ⟨.template, stack⟩ c = some (⟨.template, stack⟩, [.char c]) := by
      rw [step, templateStep, if_neg hbacktick, if_neg hbackslash, if_neg hdollar]
    rw [scan_cons hstep]
    rfl

/-- What is read starts with one part only. -/
theorem map_cons_ne {e e' : Event} (h : e ≠ e') (read : Option (State × List Event)) :
    (read.map fun r => (r.1, e :: r.2)) ≠ some (u, e' :: es) := by
  intro heq
  obtain ⟨r, -, hr⟩ := Option.map_eq_some_iff.mp heq
  exact h (List.cons.inj (Prod.mk.inj hr).2).1

/-- The first thing read of a text in a template that does not stand for itself. -/
theorem scan_template_not_char {c d : Char} {cs : List Char}
    (h : c = '\x60' ∨ c = '\\' ∨ c = '$' ∧ d = '\x7b') :
    scan ⟨.template, stack⟩ (c :: d :: cs) ≠ some (u, .char c :: es) := by
  rcases h with rfl | rfl | ⟨rfl, rfl⟩
  · have hstep : step ⟨.template, stack⟩ '\x60' = some (⟨.code, stack⟩, [.closing]) := rfl
    rw [scan_cons hstep]
    exact map_cons_ne Event.noConfusion _
  · have hstep : step ⟨.template, stack⟩ '\\' = some (⟨.templateEscape, stack⟩, []) := rfl
    have hnext : step ⟨.templateEscape, stack⟩ d = some (⟨.template, stack⟩, [.escape d]) := rfl
    rw [scan_cons hstep, scan_cons hnext, Option.map_map]
    exact map_cons_ne Event.noConfusion _
  · have hstep : step ⟨.template, stack⟩ '$' = some (⟨.dollar, stack⟩, []) := rfl
    have hnext : step ⟨.dollar, stack⟩ '\x7b' = some (⟨.code, .hole :: stack⟩, [.hole]) := rfl
    rw [scan_cons hstep, scan_cons hnext, Option.map_map]
    exact map_cons_ne Event.noConfusion _

/-- **Exactly the plain texts are read as their own characters**, before a character that starts no
hole. -/
theorem scan_text_iff {text : List Char} {d : Char} (hd : d ≠ '\x7b') {rest : List Char} :
    scan ⟨.template, stack⟩ (text ++ d :: rest) = some (u, text.map .char ++ fs) ↔
      Plain text ∧ scan ⟨.template, stack⟩ (d :: rest) = some (u, fs) := by
  induction text with
  | nil => exact (and_iff_right plain_nil).symm
  | cons c text ih =>
    -- whether `c` stands for itself is told by the next character, in the text or right after it
    obtain ⟨e, tail, htail, hhead⟩ : ∃ e tail, text ++ d :: rest = e :: tail ∧
        (e = '\x7b' ↔ text.head? = some '\x7b') := by
      cases text with
      | nil => exact ⟨d, rest, rfl, by simpa using hd⟩
      | cons e text => exact ⟨e, text ++ d :: rest, rfl, by simp⟩
    rw [plain_cons, ← hhead, List.cons_append, List.map_cons, List.cons_append]
    by_cases hplain : c ≠ '\x60' ∧ c ≠ '\\' ∧ ¬ (c = '$' ∧ e = '\x7b')
    · rw [and_iff_right hplain, ← ih, htail, scan_template_cons hplain.1 hplain.2.1 hplain.2.2,
        Option.map_eq_some_iff]
      constructor
      · rintro ⟨⟨u', fs'⟩, hscan, heq⟩
        cases heq
        exact hscan
      · exact fun hscan => ⟨_, hscan, rfl⟩
    · refine iff_of_false ?_ fun h => hplain h.1.1
      rw [htail]
      refine scan_template_not_char ?_
      by_contra hnot
      simp only [not_or] at hnot
      exact hplain hnot

end SchemaForge.Script
