import SchemaForge.Comment
import SchemaForge.Proofs.Document.JsonText

/-!
# When a comment is closed

The text of a comment is one comment if its end stands in it once, at its end. Titles, descriptions
and conflicts are escaped, so they never close it. Examples are written as JSON, which leaves the end
of a comment as it is: `closed_iff` says that the texts in the examples that are shown are all that
matters.
-/

namespace SchemaForge.Comment

open Text

/-! ## Texts without the end of a comment -/

/-- The end of a comment stands nowhere in the text. -/
def Free (t : List Char) : Prop := ¬ ['*', '/'] <:+: t

theorem free_nil : Free [] := by simp [Free]

/-- Only a star before a slash closes a comment. -/
theorem free_cons {c : Char} {t : List Char} :
    Free (c :: t) ↔ Free t ∧ ¬ (c = '*' ∧ t.head? = some '/') := by
  rw [Free, List.infix_cons_iff, Json.pair_isPrefix_cons, not_or, and_comm]
  rfl

instance decidableFree : (t : List Char) → Decidable (Free t)
  | [] => .isTrue free_nil
  | c :: t =>
    have := decidableFree t
    decidable_of_iff (Free t ∧ ¬ (c = '*' ∧ t.head? = some '/')) free_cons.symm

theorem free_cons_of_ne {c : Char} (h : c ≠ '*') {t : List Char} : Free (c :: t) ↔ Free t := by
  rw [free_cons, and_iff_left (fun hc => h hc.1)]

/-- Texts can be joined if the second does not start with a slash. -/
theorem free_append {s t : List Char} (h : t.head? ≠ some '/') :
    Free (s ++ t) ↔ Free s ∧ Free t := by
  induction s with
  | nil => simp [free_nil]
  | cons c s ih =>
    have hhead : (s ++ t).head? = some '/' ↔ s.head? = some '/' := by
      cases s with
      | nil => simpa using h
      | cons d s => rfl
    rw [List.cons_append, free_cons, free_cons, ih, hhead, and_right_comm]

theorem free_append_of_notMem {s : List Char} (h : '*' ∉ s) {t : List Char} :
    Free (s ++ t) ↔ Free t := by
  induction s with
  | nil => rfl
  | cons c s ih =>
    obtain ⟨hc, hs⟩ := List.ne_and_not_mem_of_not_mem_cons h
    rw [List.cons_append, free_cons_of_ne (Ne.symm hc), ih hs]

theorem free_of_notMem {t : List Char} (h : '*' ∉ t) : Free t := by
  rw [← List.append_nil t, free_append_of_notMem h]
  exact free_nil

/-- **Separators that hold no part of the end of a comment do not make one.** -/
theorem free_join {sep : String} (hne : sep ≠ "") (hstar : '*' ∉ sep.toList)
    (hslash : '/' ∉ sep.toList) (parts : List String) :
    Free (join sep parts).toList ↔ ∀ p ∈ parts, Free p.toList := by
  rw [join, String.toList_intercalate]
  have hhead : ∀ t, (sep.toList ++ t).head? ≠ some '/' := by
    intro t
    cases hcs : sep.toList with
    | nil => exact absurd (String.toList_eq_nil_iff.mp hcs) hne
    | cons c cs =>
      rw [hcs] at hslash
      simpa using Ne.symm (List.ne_of_not_mem_cons hslash)
  induction parts with
  | nil => simp [List.intercalate, free_nil]
  | cons p parts ih =>
    refine Iff.trans ?_ ((and_congr_right' ih).trans List.forall_mem_cons.symm)
    cases parts with
    | nil => simp [List.intercalate, free_nil]
    | cons q parts =>
      rw [List.map_cons, List.map_cons, List.intercalate_cons_cons, List.append_assoc,
        free_append (hhead _), free_append_of_notMem hstar]

/-! ## Escaped texts -/

/-- Escaping puts no slash in front. -/
theorem head?_escapeChars (cs : List Char) (h : (escapeChars cs).head? = some '/') :
    cs.head? = some '/' := by
  unfold escapeChars at h
  split at h
  · cases h
  · cases h
  · split at h
    · cases h
    · exact h

/-- **Escaped text closes no comment.** -/
theorem free_escapeChars (cs : List Char) : Free (escapeChars cs) := by
  fun_induction escapeChars cs with
  | case1 => exact free_nil
  | case2 cs ih => simpa [free_cons] using ih
  | case3 c cs hend hat ih => simpa [free_cons] using ih
  | case4 c cs hend hat ih =>
    refine free_cons.mpr ⟨ih, ?_⟩
    rintro ⟨rfl, hhead⟩
    obtain ⟨rest, rfl⟩ := List.head?_eq_some_iff.mp (head?_escapeChars cs hhead)
    exact hend rest rfl rfl

theorem free_escape (s : String) : Free (escape s).toList := by
  rw [escape, String.toList_ofList]
  exact free_escapeChars _

/-! ## Documents as JSON -/

/-- Escapes of characters have no stars. -/
theorem star_notMem_hex (width n : Nat) : '*' ∉ Quoted.hex width n := by
  induction width generalizing n with
  | zero => exact List.not_mem_nil
  | succ width ih =>
    have hall : ∀ m ∈ List.range 16, '*' ≠ Quoted.hexDigit m := by decide
    have hdigit := hall (n % 16) (List.mem_range.mpr (Nat.mod_lt _ (by decide)))
    exact List.not_mem_append (ih _) fun h => hdigit (List.mem_singleton.mp h)

theorem star_notMem_unitEscape (n : Nat) : '*' ∉ Quoted.unitEscape n :=
  List.not_mem_append (s := ['\\', 'u']) (by decide) (star_notMem_hex 4 n)

/-- The characters of a comment's end are written as they are. -/
theorem escape_eq_self (asciiOnly : Bool) {c : Char} (h : c = '*' ∨ c = '/') :
    Quoted.escape asciiOnly c = [c] := by
  rcases h with rfl | rfl
  · cases asciiOnly <;> rfl
  · cases asciiOnly <;> rfl

/-- Other characters are written without them, so what is written starts with a character of its
own. -/
theorem escape_ne {c : Char} {t : List Char} (h : Json.Escape c t) (hstar : c ≠ '*')
    (hslash : c ≠ '/') : '*' ∉ t ∧ ∃ d ds, t = d :: ds ∧ d ≠ '/' := by
  cases h with
  | self => exact ⟨by simpa using Ne.symm hstar, c, [], rfl, hslash⟩
  | short letter known =>
    have hall : (['"', '\\', 'n', 'r', 't', 'b', 'f'].all (· != '*')) = true := by decide
    have hletter : letter ≠ '*' := by simpa using List.all_eq_true.mp hall letter known
    exact ⟨by simpa using Ne.symm hletter, '\\', [letter], rfl, by decide⟩
  | unit n => exact ⟨star_notMem_unitEscape n, '\\', _, rfl, by decide⟩
  | pair n m =>
    refine ⟨?_, '\\', _, rfl, by decide⟩
    exact List.not_mem_append (star_notMem_unitEscape n) (star_notMem_unitEscape m)

/-- Encoding leaves a slash in front, and puts none there. -/
theorem head?_encodeChars (asciiOnly : Bool) (cs : List Char) :
    (Quoted.encodeChars asciiOnly cs).head? = some '/' ↔ cs.head? = some '/' := by
  cases cs with
  | nil => rfl
  | cons c cs =>
    rw [Quoted.encodeChars]
    by_cases hself : c = '*' ∨ c = '/'
    · rw [escape_eq_self asciiOnly hself]
      rfl
    · obtain ⟨hstar, hslash⟩ := not_or.mp hself
      obtain ⟨-, d, ds, heq, hd⟩ := escape_ne (Json.escape_spec asciiOnly c) hstar hslash
      rw [heq]
      exact iff_of_false (by simpa using hd) (by simpa using hslash)

/-- **Writing a text between quotes neither makes nor breaks an end of a comment.** -/
theorem free_encodeChars (asciiOnly : Bool) (cs : List Char) :
    Free (Quoted.encodeChars asciiOnly cs) ↔ Free cs := by
  induction cs with
  | nil => rfl
  | cons c cs ih =>
    rw [Quoted.encodeChars, free_cons, ← ih, ← head?_encodeChars asciiOnly]
    -- an end needs a star that is kept, before a slash that is kept
    by_cases hself : c = '*' ∨ c = '/'
    · rw [escape_eq_self asciiOnly hself, List.singleton_append, free_cons]
    · obtain ⟨hstar, hslash⟩ := not_or.mp hself
      rw [free_append_of_notMem (escape_ne (Json.escape_spec asciiOnly c) hstar hslash).1,
        and_iff_left fun h => hstar h.1]

/-- **Quoting does not help**: a quoted text closes a comment if the text does. -/
theorem free_quote (asciiOnly : Bool) (s : String) :
    Free (Json.quote asciiOnly s).toList ↔ Free s.toList := by
  rw [Json.quote, String.toList_ofList, Quoted.encode, free_cons_of_ne (by decide),
    free_append (by decide), free_encodeChars, and_iff_left (by decide)]

/-- Numbers have no stars. -/
theorem free_of_numberText {t : List Char} (h : Json.NumberText t) : Free t := by
  refine free_of_notMem fun hmem => ?_
  rcases h.2 with hword | hnumeric
  · have hall : (["Infinity".toList, "-Infinity".toList, "NaN".toList].all fun w =>
        !w.contains '*') = true := by decide
    simpa [hmem] using List.all_eq_true.mp hall t hword
  · exact absurd (hnumeric _ hmem) (by decide)

/-- The texts that a scalar has. -/
def scalarTexts : Scalar → List String
  | .text s => [s]
  | _ => []

mutual

/-- All texts that stand in a document, as values or as names of fields. -/
def texts : Value → List String
  | .scalar s => scalarTexts s
  | .list items => textsAll items
  | .object fields => textsOf fields

def textsAll : List Value → List String
  | [] => []
  | v :: vs => texts v ++ textsAll vs

def textsOf : List (Scalar × Value) → List String
  | [] => []
  | (k, v) :: fields => scalarTexts k ++ texts v ++ textsOf fields

end

/-- All texts of a list are free. -/
def AllFree (ss : List String) : Prop := ∀ s ∈ ss, Free s.toList

theorem allFree_append {ss ts : List String} : AllFree (ss ++ ts) ↔ AllFree ss ∧ AllFree ts :=
  List.forall_mem_append

theorem allFree_nil : AllFree [] := fun _ h => nomatch h

theorem allFree_singleton {s : String} : AllFree [s] ↔ Free s.toList := List.forall_mem_singleton

theorem free_boolText (b : Bool) : Free (Json.boolText b).toList := by cases b <;> decide

/-- A scalar closes a comment if the text in it does. -/
theorem free_writeScalar {s : Scalar} {t : String} (h : Json.writeScalar Json.literal s = .ok t) :
    Free t.toList ↔ AllFree (scalarTexts s) := by
  cases s with
  | text s =>
    cases h
    rw [free_quote]
    exact allFree_singleton.symm
  | null =>
    cases h
    exact iff_of_true (by decide) allFree_nil
  | bool b =>
    cases h
    exact iff_of_true (free_boolText b) allFree_nil
  | int n =>
    cases h
    exact iff_of_true (free_of_numberText (Json.numberText_intText n)) allFree_nil
  | float x =>
    cases h
    exact iff_of_true (free_of_numberText (Json.numberText_decimals x)) allFree_nil
  | date d => cases h
  | moment m => cases h

theorem free_nameText {k : Scalar} {t : String} (h : Json.nameText k = .ok t) :
    Free t.toList ↔ AllFree (scalarTexts k) := by
  cases k with
  | text s =>
    cases h
    exact allFree_singleton.symm
  | date d => cases h
  | moment m => cases h
  -- all other names are written as scalars are
  | null => exact free_writeScalar h
  | bool b => exact free_writeScalar h
  | int n => exact free_writeScalar h
  | float x => exact free_writeScalar h

/-- Brackets around a text. -/
theorem free_bracketed {a b : Char} (ha : a ≠ '*') (hb : b ≠ '/') {t : List Char} :
    Free ([a] ++ t ++ [b]) ↔ Free t := by
  rw [List.append_assoc, List.singleton_append, free_cons_of_ne ha, free_append (by simpa using hb)]
  refine and_iff_left (free_cons.mpr ⟨free_nil, ?_⟩)
  simp

/-- So does a field, by its name or by its value. -/
theorem free_writeField {k : Scalar} {part t : String}
    (h : Json.writeField Json.literal (k, part) = .ok t) :
    Free t.toList ↔ AllFree (scalarTexts k) ∧ Free part.toList := by
  obtain ⟨name, hname, h⟩ := Outcome.bind_eq_ok.mp h
  cases h
  have hcolon : Free (": ".toList ++ part.toList) ↔ Free part.toList :=
    free_append_of_notMem (by decide)
  rw [String.toList_append, String.toList_append, List.append_assoc,
    free_append (by simp), hcolon, free_quote, free_nameText hname]

mutual

/-- **A document as JSON holds the end of a comment if one of its texts does.** -/
theorem free_write : ∀ {v : Value} {t : String}, Json.write Json.literal v = .ok t →
    (Free t.toList ↔ AllFree (texts v))
  | .scalar s, t, h => free_writeScalar (by rwa [Json.write] at h)
  | .list items, t, h => by
    rw [Json.write] at h
    obtain ⟨parts, hparts, h⟩ := Outcome.bind_eq_ok.mp h
    cases h
    rw [String.toList_append, String.toList_append]
    refine (free_bracketed (a := '[') (b := ']') (by decide) (by decide)).trans ?_
    rw [free_join (by decide) (by decide) (by decide), texts]
    exact free_writeAll hparts
  | .object fields, t, h => by
    obtain ⟨values, parts, written, hvalues, hperm, hwritten, rfl⟩ := Json.write_object h
    have hparts : (∀ w ∈ written, Free w.toList) ↔
        ∀ part ∈ parts, AllFree (scalarTexts part.1) ∧ Free part.2.toList :=
      Outcome.forall_mem_iff_of_mapM hwritten free_writeField
    rw [String.toList_append, String.toList_append]
    refine (free_bracketed (a := '\x7b') (b := '\x7d') (by decide) (by decide)).trans ?_
    rw [free_join (by decide) (by decide) (by decide), hparts, texts]
    -- the fields are sorted, which does not change which there are
    exact (forall_congr' fun part => by rw [hperm.mem_iff]).trans (free_writeValues hvalues)

theorem free_writeAll : ∀ {vs : List Value} {parts : List String},
    Json.writeAll Json.literal vs = .ok parts →
    ((∀ p ∈ parts, Free p.toList) ↔ AllFree (textsAll vs))
  | [], parts, h => by
    rw [Json.writeAll] at h
    cases h
    exact iff_of_true allFree_nil allFree_nil
  | v :: vs, parts, h => by
    rw [Json.writeAll] at h
    obtain ⟨part, hpart, h⟩ := Outcome.bind_eq_ok.mp h
    obtain ⟨rest, hrest, h⟩ := Outcome.bind_eq_ok.mp h
    cases h
    rw [List.forall_mem_cons, free_write hpart, free_writeAll hrest, textsAll, allFree_append]

theorem free_writeValues : ∀ {fields : List (Scalar × Value)} {parts : List (Scalar × String)},
    Json.writeValues Json.literal fields = .ok parts →
    ((∀ part ∈ parts, AllFree (scalarTexts part.1) ∧ Free part.2.toList) ↔
      AllFree (textsOf fields))
  | [], parts, h => by
    rw [Json.writeValues] at h
    cases h
    exact iff_of_true (fun _ h => nomatch h) allFree_nil
  | (k, v) :: fields, parts, h => by
    rw [Json.writeValues] at h
    obtain ⟨part, hpart, h⟩ := Outcome.bind_eq_ok.mp h
    obtain ⟨rest, hrest, h⟩ := Outcome.bind_eq_ok.mp h
    cases h
    rw [List.forall_mem_cons, free_write hpart, free_writeValues hrest, textsOf, allFree_append,
      allFree_append]

end

/-! ## Parts of comments -/

/-- The examples that a schema gives. -/
def examples (fields : Fields) : List Value :=
  match fields.value "examples" with
  | .list (e :: es) => e :: es
  | _ => (fields.get? "example").toList

/-- The examples that a comment shows: none if JSON cannot write all of them. -/
def shownExamples (schema : Value) : List Value :=
  match schema with
  | .object fields =>
    match (examples fields).mapM (Json.write Json.literal) with
    | .ok _ => examples fields
    | .error _ => []
  | _ => []

theorem exampleText_eq (fields : Fields) : exampleText fields =
    ((examples fields).mapM (Json.write Json.literal)).map fun parts =>
      if parts.isEmpty then none else some ("@example " ++ join ", " parts) := by
  unfold exampleText
  split
  · rename_i e es heq
    have hgiven : examples fields = e :: es := by rw [examples, heq]
    rw [hgiven]
    cases hparts : (e :: es).mapM (Json.write Json.literal) with
    | error fault => rfl
    | ok parts =>
      cases Outcome.forall₂_of_mapM hparts
      rfl
  · rename_i hlist
    have hgiven : examples fields = (fields.get? "example").toList := by
      unfold examples
      split
      · exact absurd ‹_› (hlist _ _)
      · rfl
    rw [hgiven]
    cases fields.get? "example" with
    | none => rfl
    | some e =>
      rw [Option.toList_some, List.mapM_cons, List.mapM_nil]
      dsimp only
      cases Json.write Json.literal e with
      | error fault => rfl
      | ok part =>
        show Except.ok (some ("@example " ++ part)) =
          Except.ok (some ("@example " ++ join ", " [part]))
        rw [join, String.intercalate_singleton]

/-- The same for one value after another. -/
theorem free_mapM_write {vs : List Value} {parts : List String}
    (h : vs.mapM (Json.write Json.literal) = .ok parts) :
    AllFree parts ↔ ∀ v ∈ vs, AllFree (texts v) :=
  Outcome.forall_mem_iff_of_mapM h free_write

/-- The part of a comment that shows examples. -/
def examplePart (fields : Fields) : List String :=
  match exampleText fields with
  | .ok e => e.toList
  | .error _ => []

/-- **A comment shows an example without closing itself if no text in the example closes it.** -/
theorem free_examplePart (fields : Fields) :
    AllFree (examplePart fields) ↔ ∀ v ∈ shownExamples (.object fields), AllFree (texts v) := by
  unfold examplePart
  rw [exampleText_eq, shownExamples]
  cases hparts : (examples fields).mapM (Json.write Json.literal) with
  | error fault => exact iff_of_true allFree_nil (fun _ h => nomatch h)
  | ok parts =>
    rw [← free_mapM_write hparts]
    cases parts with
    | nil => rfl
    | cons part parts =>
      show AllFree ["@example " ++ join ", " (part :: parts)] ↔ _
      rw [allFree_singleton, String.toList_append, free_append_of_notMem (by decide),
        free_join (by decide) (by decide) (by decide)]
      rfl

/-- Titles and descriptions are escaped. -/
theorem free_textPart (v : Value) : AllFree (textPart v) := by
  unfold textPart
  split
  · split
    · exact allFree_nil
    · exact allFree_singleton.mpr (free_escape _)
  · exact allFree_nil

/-- A comment of some parts, on one line. -/
def render (parts : List String) : String :=
  if parts.isEmpty then "" else "/** " ++ join " " parts ++ " */"

/-- The parts of a comment. -/
def parts (fields : Fields) (name : Scalar) (descriptions : Bool) : List String :=
  (if descriptions then
    (if (fields.value "title").same (.scalar name) then [] else textPart (fields.value "title")) ++
      textPart (fields.value "description") ++ examplePart fields
  else []) ++
  if (fields.value "deprecated").isSet then ["@deprecated"] else []

theorem ofSchema_object (fields : Fields) (name : Scalar) (descriptions : Bool) :
    (ofSchema (.object fields) name descriptions).1 = render (parts fields name descriptions) := by
  unfold ofSchema parts examplePart
  cases descriptions with
  | false =>
    show (if (fields.value "deprecated").isSet then "/** @deprecated */" else "") =
      render (if (fields.value "deprecated").isSet then ["@deprecated"] else [])
    split
    · show _ = "/** " ++ join " " ["@deprecated"] ++ " */"
      rw [join, String.intercalate_singleton]
      rfl
    · rfl
  | true =>
    dsimp only
    cases exampleText fields with
    | error fault => rfl
    | ok e => rfl

/-- **Of the parts of a comment, only examples can hold its end.** -/
theorem free_parts (fields : Fields) (name : Scalar) (descriptions : Bool) :
    AllFree (parts fields name descriptions) ↔
      (descriptions = true → ∀ v ∈ shownExamples (.object fields), AllFree (texts v)) := by
  have hmark : AllFree (if (fields.value "deprecated").isSet then ["@deprecated"] else []) := by
    split
    · exact allFree_singleton.mpr (by decide)
    · exact allFree_nil
  have htitle : AllFree (if (fields.value "title").same (.scalar name) then []
      else textPart (fields.value "title")) := by
    split
    · exact allFree_nil
    · exact free_textPart _
  rw [parts, allFree_append, and_iff_left hmark]
  cases descriptions with
  | false => exact iff_of_true allFree_nil fun h => nomatch h
  | true =>
    rw [if_pos rfl, allFree_append, allFree_append, and_iff_right ⟨htitle, free_textPart _⟩,
      free_examplePart, forall_prop_of_true rfl]

/-! ## Whole comments -/

/-- The text of one comment: its end stands in it once, as its last two characters. -/
structure Closed (text : List Char) : Prop where
  opens : "/**".toList <+: text
  closes : "*/".toList <:+ text
  once : ∀ before after, text = before ++ '*' :: '/' :: after → after = []

/-- What stands before the end of a closed comment does not end it. -/
theorem free_of_closed {t : List Char} (h : Closed (t ++ ['*', '/'])) : Free t := by
  rintro ⟨before, after, rfl⟩
  have hafter := h.once before (after ++ ['*', '/']) (by simp)
  simp at hafter

/-- A comment that is not ended before its end is closed there. -/
theorem closed_of_free {t : List Char} (h : "/**".toList <+: t) (hfree : Free t) :
    Closed (t ++ ['*', '/']) := by
  refine ⟨h.trans (List.prefix_append _ _), List.suffix_append _ _, fun before after heq => ?_⟩
  -- an end that stands before the last character of the text stands in `t`
  by_contra hafter
  have hend : before ++ ['*', '/'] <+: t ++ ['*'] := by
    have hstart : before ++ ['*', '/'] <+: t ++ ['*'] ++ ['/'] := ⟨after, by simpa using heq.symm⟩
    refine List.prefix_of_prefix_length_le hstart (List.prefix_append _ _) ?_
    have hlength := congrArg List.length heq
    have hpos := List.length_pos_of_ne_nil hafter
    simp only [List.length_append, List.length_cons, List.length_nil] at hlength ⊢
    omega
  have hstar : Free (t ++ ['*']) :=
    (free_append (by decide)).mpr ⟨hfree, by decide⟩
  exact hstar ((List.suffix_append before ['*', '/']).isInfix.trans hend.isInfix)

/-- The names of conflicts are escaped. -/
theorem free_block (conflicts : List String) :
    Free (join "\n" (" * @warning allOf property conflicts detected:" ::
      conflicts.map fun c => " * - " ++ escape c)).toList := by
  rw [free_join (by decide) (by decide) (by decide), List.forall_mem_cons, List.forall_mem_map]
  refine ⟨by decide, fun c _ => ?_⟩
  rw [String.toList_append]
  simpa [free_cons] using free_escape c

/-- A text that is put between the marks of a comment, with blanks around it. -/
theorem exists_inside (blank : Char) (tail : List Char) {text : String} {inside : List Char}
    (hblank : blank ≠ '*' ∧ blank ≠ '/') (htail : tail.head? ≠ some '/') (hfree : Free tail)
    (h : text.toList = "/**".toList ++ blank :: (inside ++ tail) ++ ['*', '/']) :
    ∃ t, text.toList = t ++ ['*', '/'] ∧ "/**".toList <+: t ∧ (Free t ↔ Free inside) := by
  refine ⟨_, h, List.prefix_append _ _, ?_⟩
  rw [free_append (by simpa using hblank.2), free_cons_of_ne hblank.1, free_append htail,
    and_iff_right (by decide), and_iff_left hfree]

theorem toList_render {parts : List String} (h : parts ≠ []) :
    (render parts).toList = "/** ".toList ++ (join " " parts).toList ++ " */".toList := by
  rw [render, if_neg (by simpa using h), String.toList_append, String.toList_append]

/-- **A comment is nothing, or it is a text before the end of a comment.** The text is free if the
parts of the comment are, whatever conflicts there are. -/
theorem withConflicts_render (parts conflicts : List String) :
    (withConflicts (render parts) conflicts = "" ∧ parts = []) ∨
      ∃ t, (withConflicts (render parts) conflicts).toList = t ++ ['*', '/'] ∧
        "/**".toList <+: t ∧ (Free t ↔ AllFree parts) := by
  have hjoined : Free (join " " parts).toList ↔ AllFree parts :=
    free_join (by decide) (by decide) (by decide) parts
  have hblock := free_block conflicts
  unfold withConflicts
  dsimp only
  generalize join "\n" _ = block at hblock ⊢
  cases conflicts with
  | nil =>
    rw [if_pos List.isEmpty_nil]
    by_cases hparts : parts = []
    · exact Or.inl ⟨by rw [hparts]; rfl, hparts⟩
    · rw [← hjoined]
      refine Or.inr (exists_inside ' ' [' '] (by decide) (by decide) (by decide) ?_)
      rw [toList_render hparts]
      simp
  | cons conflict conflicts =>
    rw [if_neg (by simp)]
    by_cases hparts : parts = []
    · subst hparts
      have hall : AllFree [] ↔ Free block.toList := iff_of_true allFree_nil hblock
      rw [hall, if_pos (by decide)]
      refine Or.inr (exists_inside '\n' ['\n', ' '] (by decide) (by decide) (by decide) ?_)
      simp
    · have hset : ¬ (render parts == "") = true := by
        rw [beq_iff_eq, ← String.toList_inj, toList_render hparts]
        simp
      have hkept : (render parts).toList.take ((render parts).toList.length - 3) =
          "/** ".toList ++ (join " " parts).toList := by
        rw [toList_render hparts]
        exact List.take_left' (by simp)
      have hall : AllFree parts ↔ Free ((join " " parts).toList ++ '\n' :: block.toList) := by
        rw [free_append (by simp), free_cons_of_ne (by decide), hjoined, and_iff_left hblock]
      rw [hall, if_neg hset, hkept]
      refine Or.inr (exists_inside ' ' ['\n', ' '] (by decide) (by decide) (by decide) ?_)
      simp

/-- A note of conflicts alone is a comment, or nothing. -/
theorem withConflicts_empty (conflicts : List String) :
    withConflicts "" conflicts = "" ∨ Closed (withConflicts "" conflicts).toList := by
  rcases withConflicts_render [] conflicts with ⟨hnone, -⟩ | ⟨t, ht, hopens, hfree⟩
  · exact Or.inl hnone
  · refine Or.inr ?_
    have hclosed := closed_of_free hopens (hfree.mpr allFree_nil)
    rwa [← ht] at hclosed

/-- **A comment with its conflicts is closed at its end and nowhere before**, or there is none, if no
text in an example that it shows holds the end of a comment; and only then. -/
theorem closed_iff (schema : Value) (name : Scalar) (descriptions : Bool)
    (conflicts : List String) :
    (withConflicts (ofSchema schema name descriptions).1 conflicts = "" ∨
      Closed (withConflicts (ofSchema schema name descriptions).1 conflicts).toList) ↔
    (descriptions = true → ∀ v ∈ shownExamples schema, ∀ s ∈ texts v,
      ¬ "*/".toList <:+: s.toList) := by
  cases schema with
  | scalar s => exact iff_of_true (withConflicts_empty conflicts) fun _ _ h => nomatch h
  | list items => exact iff_of_true (withConflicts_empty conflicts) fun _ _ h => nomatch h
  | object fields =>
    rw [ofSchema_object]
    refine Iff.trans ?_ (free_parts fields name descriptions)
    rcases withConflicts_render (parts fields name descriptions) conflicts with
      ⟨hnone, hparts⟩ | ⟨t, ht, hopens, hfree⟩
    · rw [hparts]
      rw [hparts] at hnone
      exact iff_of_true (Or.inl hnone) allFree_nil
    · have hne : withConflicts (render (parts fields name descriptions)) conflicts ≠ "" := by
        rw [ne_eq, ← String.toList_inj, ht]
        simp
      rw [or_iff_right hne, ht, ← hfree]
      exact ⟨free_of_closed, closed_of_free hopens⟩

/-- **An example can close its comment.** -/
theorem not_closed_example :
    ¬ (withConflicts (ofSchema (.object [(.text "example", .text "*/")]) .null true).1 [] = "" ∨
      Closed (withConflicts
        (ofSchema (.object [(.text "example", .text "*/")]) .null true).1 []).toList) := by
  have htext : withConflicts (ofSchema (.object [(.text "example", .text "*/")]) .null true).1 [] =
      "/** @example \"*/\" */" := by decide +kernel
  rw [htext]
  rintro (hempty | hclosed)
  · exact absurd hempty (by decide)
  · exact absurd (hclosed.once "/** @example \"".toList "\" */".toList (by decide)) (by decide)

end SchemaForge.Comment
