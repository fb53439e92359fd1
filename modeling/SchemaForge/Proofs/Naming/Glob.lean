import Mathlib.Data.List.Basic
import SchemaForge.Naming.Glob

/-!
# What globs stand for

The set of texts that a glob stands for, told of the characters of the pattern (`Glob.Matches`). Of a
class this says what its characters and ranges are, read from left to right, that ranges whose ends are
the wrong way round are left out, and that an exclamation mark that then comes first negates the rest.

The reader of patterns goes another way: it cuts the text of a class at its range hyphens, drops empty
ranges from the last to the first, and puts the pieces together again. In between stand the pieces of
a list of items (`chunksOf`), which each of these steps takes to the pieces of another such list. So
`accepts_parse_iff` says that reading a pattern and trying a text gives the set of the glob.
-/

namespace SchemaForge

/-! ## Classes -/

/-- What a character or a range of a class stands for. -/
inductive ClassItem.Covers : ClassItem → Char → Prop where
  | char (c : Char) : Covers (.char c) c
  | range {low high c : Char} (above : low.toNat ≤ c.toNat) (below : c.toNat ≤ high.toNat) :
      Covers (.range low high) c

/-- A range that is not empty; a character is never left out. -/
def ClassItem.isProper : ClassItem → Bool
  | .char _ => true
  | .range low high => low.toNat ≤ high.toNat

/-- An item accepts the characters that it covers. -/
theorem ClassItem.accepts_iff {item : ClassItem} {c : Char} :
    item.accepts c = true ↔ item.Covers c := by
  cases item with
  | char d =>
    rw [ClassItem.accepts, beq_iff_eq]
    constructor
    · rintro rfl
      exact .char c
    · rintro ⟨⟩
      rfl
  | range low high =>
    rw [ClassItem.accepts, Bool.and_eq_true, decide_eq_true_eq, decide_eq_true_eq]
    exact ⟨fun h => .range h.1 h.2, fun h => by cases h with | range above below => exact ⟨above, below⟩⟩

namespace Glob

/-- What may stand between the brackets of a class: any character and then none that closes it, with
an exclamation mark before them or not. -/
inductive ClassText : List Char → Prop where
  | plain {first : Char} {more : List Char} (hfirst : first ≠ '!') (hmore : ']' ∉ more) :
      ClassText (first :: more)
  | marked (first : Char) {more : List Char} (hmore : ']' ∉ more) :
      ClassText ('!' :: first :: more)

/-- The items of a class text from left to right. Two characters with a hyphen between them are a
range, and any other character stands for itself. -/
def itemsFrom : List Char → List ClassItem
  | low :: '-' :: high :: rest => .range low high :: itemsFrom rest
  | c :: rest => .char c :: itemsFrom rest
  | [] => []

/-- The items of a class text; an exclamation mark that comes first is not the end of a range. -/
def textItems : List Char → List ClassItem
  | '!' :: rest => .char '!' :: itemsFrom rest
  | body => itemsFrom body

/-- The items that count. -/
def properItems (body : List Char) : List ClassItem := (textItems body).filter ClassItem.isProper

/-- A character is covered by one of some items. -/
def Covered (items : List ClassItem) (c : Char) : Prop := ∃ item ∈ items, item.Covers c

/-- What some items stand for together. An exclamation mark that comes first negates the rest; if it
comes first as the low end of a range, the rest begins with the hyphen. -/
def Admits : List ClassItem → Char → Prop
  | .char '!' :: items, c => ¬ Covered items c
  | .range '!' high :: items, c => ¬ Covered (.char '-' :: .char high :: items) c
  | items, c => Covered items c

/-- A character is in the class of a text. -/
def InClass (body : List Char) (c : Char) : Prop := Admits (properItems body) c

/-- A text is in the set of a glob. -/
inductive Matches : List Char → List Char → Prop where
  | nil : Matches [] []
  | star {pattern text : List Char} (skipped : List Char) (rest : Matches pattern text) :
      Matches ('*' :: pattern) (skipped ++ text)
  | any {pattern text : List Char} (c : Char) (rest : Matches pattern text) :
      Matches ('?' :: pattern) (c :: text)
  | oneOf {body pattern text : List Char} {c : Char} (closed : ClassText body)
      (inside : InClass body c) (rest : Matches pattern text) :
      Matches ('[' :: (body ++ ']' :: pattern)) (c :: text)
  /-- A bracket that no other one closes stands for itself. -/
  | bracket {pattern text : List Char}
      (unclosed : ∀ body after, ClassText body → pattern ≠ body ++ ']' :: after)
      (rest : Matches pattern text) : Matches ('[' :: pattern) ('[' :: text)
  | char {c : Char} {pattern text : List Char} (star : c ≠ '*') (any : c ≠ '?') (bracket : c ≠ '[')
      (rest : Matches pattern text) : Matches (c :: pattern) (c :: text)

/-! ## Closing brackets -/

variable {cs body rest text : List Char}

/-- A class ends at the first bracket behind its beginning. -/
theorem untilBracket_eq_some_iff : ∀ {cs body rest : List Char},
    untilBracket cs = some (body, rest) ↔ ']' ∉ body ∧ cs = body ++ ']' :: rest
  | [], body, rest => by simp [untilBracket]
  | c :: cs, body, rest => by
    rw [untilBracket]
    by_cases hc : c = ']'
    · rw [if_pos (by simpa using hc), Option.some.injEq, Prod.mk.injEq]
      constructor
      · rintro ⟨rfl, rfl⟩
        simp [hc]
      · rintro ⟨hbody, heq⟩
        cases body with
        | nil => simpa [hc] using heq
        | cons b body =>
          rw [List.cons_append, List.cons.injEq] at heq
          exact absurd (heq.1 ▸ hc ▸ List.mem_cons_self) hbody
    · rw [if_neg (by simpa using hc), Option.map_eq_some_iff]
      constructor
      · rintro ⟨⟨more, left⟩, hmore, heq⟩
        cases heq
        obtain ⟨hnot, rfl⟩ := untilBracket_eq_some_iff.mp hmore
        refine ⟨?_, rfl⟩
        rw [List.mem_cons, not_or]
        exact ⟨Ne.symm hc, hnot⟩
      · rintro ⟨hbody, heq⟩
        cases body with
        | nil =>
          rw [List.nil_append, List.cons.injEq] at heq
          exact absurd heq.1 hc
        | cons b body =>
          rw [List.cons_append, List.cons.injEq] at heq
          obtain ⟨rfl, rfl⟩ := heq
          rw [List.mem_cons, not_or] at hbody
          exact ⟨(body, rest), untilBracket_eq_some_iff.mpr ⟨hbody.2, rfl⟩, rfl⟩

/-- The first character of a class belongs to it, even a bracket. -/
theorem readClass_plain {first : Char} (hfirst : first ≠ '!') (more : List Char) :
    readClass (first :: more) = (untilBracket more).map fun (body, rest) => (first :: body, rest) := by
  by_cases hclose : first = ']'
  · subst hclose
    rfl
  · have hread : readClass (first :: more) = untilBracket (first :: more) := by
      unfold readClass
      split <;> simp_all
    rw [hread, untilBracket, if_neg (by simpa using hclose)]

/-- So does the one behind a mark. -/
theorem readClass_marked (first : Char) (more : List Char) :
    readClass ('!' :: first :: more) =
      (untilBracket more).map fun (body, rest) => ('!' :: first :: body, rest) := by
  by_cases hclose : first = ']'
  · subst hclose
    rfl
  · have hread : readClass ('!' :: first :: more) =
        (untilBracket (first :: more)).map fun (body, rest) => ('!' :: body, rest) := by
      unfold readClass
      split <;> simp_all
    rw [hread, untilBracket, if_neg (by simpa using hclose), Option.map_map]
    rfl

/-- **A class is read up to the bracket that closes it**: the first one after its first character. -/
theorem readClass_eq_some_iff :
    readClass cs = some (body, rest) ↔ ClassText body ∧ cs = body ++ ']' :: rest := by
  constructor
  · intro h
    cases cs with
    | nil => cases h
    | cons first more =>
      by_cases hfirst : first = '!'
      · subst hfirst
        cases more with
        | nil => cases h
        | cons second more =>
          rw [readClass_marked, Option.map_eq_some_iff] at h
          obtain ⟨⟨inner, after⟩, hinner, heq⟩ := h
          cases heq
          obtain ⟨hmore, rfl⟩ := untilBracket_eq_some_iff.mp hinner
          exact ⟨.marked second hmore, rfl⟩
      · rw [readClass_plain hfirst, Option.map_eq_some_iff] at h
        obtain ⟨⟨inner, after⟩, hinner, heq⟩ := h
        cases heq
        obtain ⟨hmore, rfl⟩ := untilBracket_eq_some_iff.mp hinner
        exact ⟨.plain hfirst hmore, rfl⟩
  · rintro ⟨hbody, rfl⟩
    cases hbody with
    | plain hfirst hmore =>
      rw [List.cons_append, readClass_plain hfirst, untilBracket_eq_some_iff.mpr ⟨hmore, rfl⟩]
      rfl
    | marked first hmore =>
      rw [List.cons_append, List.cons_append, readClass_marked,
        untilBracket_eq_some_iff.mpr ⟨hmore, rfl⟩]
      rfl

/-! ## Pieces of a class text

Between the range hyphens of a class text stand its pieces. The items of the text tell them: a range
ends one piece and begins the next. -/

/-- Puts a character before the first of some pieces. -/
def prepend (c : Char) : List (List Char) → List (List Char)
  | [] => [[c]]
  | chunk :: more => (c :: chunk) :: more

/-- The pieces of a text with the given items. -/
def chunksOf : List ClassItem → List (List Char)
  | [] => [[]]
  | .char c :: items => prepend c (chunksOf items)
  | .range low high :: items => [low] :: prepend high (chunksOf items)

/-- A character of a text, and whether it is the hyphen of a range, for the given items. -/
def tokensOf : List ClassItem → List ClassToken
  | [] => []
  | .char c :: items => .char c :: tokensOf items
  | .range low high :: items => .char low :: .hyphen :: .char high :: tokensOf items

/-- Only the last piece may be empty. -/
theorem exists_chunksOf_eq : ∀ items : List ClassItem,
    ∃ chunk more, chunksOf items = chunk :: more ∧ (more = [] ∨ chunk ≠ [])
  | [] => ⟨[], [], rfl, Or.inl rfl⟩
  | .char c :: items => by
    obtain ⟨chunk, more, heq, -⟩ := exists_chunksOf_eq items
    exact ⟨c :: chunk, more, by rw [chunksOf, heq, prepend], Or.inr (List.cons_ne_nil _ _)⟩
  | .range low high :: items => ⟨[low], _, rfl, Or.inr (List.cons_ne_nil _ _)⟩

/-! ### Cutting -/

theorem chunks_cons_acc (c : Char) : ∀ (skip : Nat) (chunk cs : List Char),
    chunks skip (c :: chunk) cs = prepend c (chunks skip chunk cs)
  | _, _, [] => rfl
  | skip + 1, chunk, d :: cs => by
    rw [chunks, chunks, List.cons_append, chunks_cons_acc c skip (chunk ++ [d]) cs]
  | 0, chunk, d :: cs => by
    rw [chunks, chunks]
    split
    · rfl
    · rw [List.cons_append, chunks_cons_acc c 0 (chunk ++ [d]) cs]

theorem chunks_succ_cons (skip : Nat) (c : Char) (cs : List Char) :
    chunks (skip + 1) [] (c :: cs) = prepend c (chunks skip [] cs) := by
  rw [chunks, List.nil_append, chunks_cons_acc]

theorem chunks_zero_of_ne {c : Char} (hc : c ≠ '-') (cs : List Char) :
    chunks 0 [] (c :: cs) = chunks 1 [] (c :: cs) := by
  have hzero : chunks 0 [] (c :: cs) = chunks 0 ([] ++ [c]) cs := by
    rw [chunks, if_neg (by simpa using hc)]
  rw [hzero, chunks]

theorem exists_chunks_eq : ∀ (skip : Nat) (chunk cs : List Char),
    ∃ first more, chunks skip chunk cs = first :: more
  | _, chunk, [] => ⟨chunk, [], rfl⟩
  | skip + 1, chunk, c :: cs => exists_chunks_eq skip (chunk ++ [c]) cs
  | 0, chunk, c :: cs => by
    rw [chunks]
    split
    · exact ⟨_, _, rfl⟩
    · exact exists_chunks_eq 0 (chunk ++ [c]) cs

theorem closeChunks_prepend (c : Char) (chunk : List Char) (more : List (List Char)) :
    closeChunks (prepend c (chunk :: more)) = prepend c (closeChunks (chunk :: more)) := by
  match more with
  | [] => rfl
  | [[]] => rfl
  | (_ :: _) :: _ => rfl
  | [] :: _ :: _ => rfl

theorem closeChunks_cons_prepend (low c : Char) (chunk : List Char) (more : List (List Char)) :
    closeChunks ([low] :: prepend c (chunk :: more)) =
      [low] :: prepend c (closeChunks (chunk :: more)) := by
  rw [← closeChunks_prepend]
  rfl

/-- **The pieces between the range hyphens are those of the items**, which are read in the same way. -/
theorem closeChunks_chunks (cs : List Char) :
    closeChunks (chunks 1 [] cs) = chunksOf (itemsFrom cs) := by
  fun_induction itemsFrom cs with
  | case1 low high rest ih =>
    obtain ⟨chunk, more, heq⟩ := exists_chunks_eq 1 [] rest
    have hcut : chunks 1 [] (low :: '-' :: high :: rest) =
        [low] :: prepend high (chunks 1 [] rest) := by
      rw [← chunks_succ_cons]
      rfl
    rw [hcut, heq, closeChunks_cons_prepend, ← heq, ih, chunksOf]
  | case2 c rest hnoRange ih =>
    cases rest with
    | nil => rfl
    | cons d rest =>
      by_cases hd : d = '-'
      · subst hd
        cases rest with
        | nil => rfl
        | cons high rest => exact absurd rfl (hnoRange high rest)
      -- the character that follows is no hyphen, so the next item begins with it
      · obtain ⟨chunk, more, heq⟩ := exists_chunks_eq 1 [] (d :: rest)
        rw [chunks_succ_cons, chunks_zero_of_ne hd, heq, closeChunks_prepend, ← heq, ih, chunksOf]
  | case3 => rfl

/-! ### Leaving out empty ranges -/

theorem dropEmptyRanges_prepend (c : Char) (items : List ClassItem) :
    dropEmptyRanges (prepend c (chunksOf items)) = prepend c (dropEmptyRanges (chunksOf items)) := by
  obtain ⟨chunk, more, heq, hshape⟩ := exists_chunksOf_eq items
  rw [heq, prepend]
  rcases hshape with rfl | hchunk
  · rfl
  · obtain ⟨last, hlast⟩ := List.getLast?_isSome.mpr hchunk |> Option.isSome_iff_exists.mp
    have hlast' : (c :: chunk).getLast? = some last := by
      rw [List.getLast?_cons, hlast, Option.getD_some]
    rw [dropEmptyRanges, dropEmptyRanges]
    split
    · rfl
    · rw [hlast, hlast']
      split
      · rename_i heq' _
        cases heq'
        split
        · rw [List.dropLast_cons_of_ne_nil hchunk]
          rfl
        · rfl
      · rfl

/-- Dropping ranges without a character drops just these items. -/
theorem dropEmptyRanges_chunksOf : ∀ items : List ClassItem,
    dropEmptyRanges (chunksOf items) = chunksOf (items.filter ClassItem.isProper)
  | [] => rfl
  | .char c :: items => by
    have hkept : ClassItem.isProper (.char c) = true := rfl
    rw [chunksOf, dropEmptyRanges_prepend, dropEmptyRanges_chunksOf items,
      List.filter_cons_of_pos hkept, chunksOf]
  | .range low high :: items => by
    obtain ⟨chunk, more, heq, -⟩ := exists_chunksOf_eq (items.filter ClassItem.isProper)
    rw [chunksOf, dropEmptyRanges, dropEmptyRanges_prepend, dropEmptyRanges_chunksOf items, heq,
      prepend]
    by_cases hproper : low.toNat ≤ high.toNat
    · have hkept : ClassItem.isProper (.range low high) = true := by
        simpa [ClassItem.isProper] using hproper
      rw [List.filter_cons_of_pos hkept, chunksOf, heq, prepend]
      exact if_neg (by simpa using hproper)
    · have hgone : ¬ ClassItem.isProper (.range low high) = true := by
        simpa [ClassItem.isProper] using hproper
      rw [List.filter_cons_of_neg hgone, heq]
      exact if_pos (by simpa using hproper)

/-! ### Putting together -/

theorem joinChunks_prepend (c : Char) (chunk : List Char) (more : List (List Char)) :
    joinChunks (prepend c (chunk :: more)) = .char c :: joinChunks (chunk :: more) := by
  cases more <;> rfl

/-- Joining the pieces gives the tokens of the items. -/
theorem joinChunks_chunksOf : ∀ items : List ClassItem, joinChunks (chunksOf items) = tokensOf items
  | [] => rfl
  | .char c :: items => by
    obtain ⟨chunk, more, heq, -⟩ := exists_chunksOf_eq items
    rw [chunksOf, heq, joinChunks_prepend, ← heq, joinChunks_chunksOf items, tokensOf]
  | .range low high :: items => by
    obtain ⟨chunk, more, heq, -⟩ := exists_chunksOf_eq items
    have hjoin : joinChunks ([low] :: prepend high (chunk :: more)) =
        .char low :: .hyphen :: joinChunks (prepend high (chunk :: more)) := rfl
    rw [chunksOf, heq, hjoin, joinChunks_prepend, ← heq, joinChunks_chunksOf items, tokensOf]

/-- The items are read off the tokens again. -/
theorem classItems_tokensOf : ∀ items : List ClassItem, classItems (tokensOf items) = items
  | [] => rfl
  | .range low high :: items => by
    rw [tokensOf, classItems, classItems_tokensOf items]
  | [.char c] => rfl
  | .char c :: .char d :: items => by
    have ih := classItems_tokensOf (.char d :: items)
    rw [tokensOf, tokensOf] at *
    rw [classItems, ih]
    simp
  | .char c :: .range low high :: items => by
    have ih := classItems_tokensOf (.range low high :: items)
    rw [tokensOf, tokensOf] at *
    rw [classItems, ih]
    simp

/-! ## Reading a class -/

/-- The part for the tokens of a class text. -/
def partOf : List ClassToken → GlobPart
  | [] => .oneOf false []
  | [.char '!'] => .any
  | .char '!' :: rest => .oneOf true (classItems rest)
  | tokens => .oneOf false (classItems tokens)

theorem itemsFrom_of_notMem : ∀ {cs : List Char}, '-' ∉ cs → itemsFrom cs = cs.map .char := by
  intro cs h
  fun_induction itemsFrom cs with
  | case1 low high rest ih => simp at h
  | case2 c rest hnoRange ih =>
    rw [List.mem_cons, not_or] at h
    rw [ih h.2, List.map_cons]
  | case3 => rfl

theorem textItems_of_notMem (h : '-' ∉ body) : textItems body = body.map .char := by
  unfold textItems
  split
  · rw [List.mem_cons, not_or] at h
    rw [itemsFrom_of_notMem h.2, List.map_cons]
  · exact itemsFrom_of_notMem h

theorem tokensOf_map_char : ∀ cs : List Char, tokensOf (cs.map .char) = cs.map .char
  | [] => rfl
  | c :: cs => by rw [List.map_cons, tokensOf, tokensOf_map_char cs, List.map_cons]

/-- A text without hyphens has no ranges. -/
theorem tokensOf_of_notMem (h : '-' ∉ body) : tokensOf (properItems body) = body.map .char := by
  have hproper : (body.map ClassItem.char).filter ClassItem.isProper = body.map .char := by
    refine List.filter_eq_self.mpr fun item hitem => ?_
    obtain ⟨c, -, rfl⟩ := List.mem_map.mp hitem
    rfl
  rw [properItems, textItems_of_notMem h, hproper, tokensOf_map_char]

theorem textItems_of_ne {c : Char} (hc : c ≠ '!') (rest : List Char) :
    textItems (c :: rest) = itemsFrom (c :: rest) := by
  unfold textItems
  split
  · rename_i heq
    exact absurd (List.cons.inj heq).1 hc
  · rfl

/-- **Cutting the text of a class at its dashes finds its items.** What is left of a dash is the low
end of a range, unless it is the high end of another one. -/
theorem closeChunks_textItems (body : List Char) :
    closeChunks (chunks (if body.head? == some '!' then 2 else 1) [] body) =
      chunksOf (textItems body) := by
  cases body with
  | nil => rfl
  | cons c rest =>
    by_cases hc : c = '!'
    · subst hc
      obtain ⟨chunk, more, heq⟩ := exists_chunks_eq 1 [] rest
      rw [if_pos (by simp), chunks_succ_cons, heq, closeChunks_prepend, ← heq, closeChunks_chunks]
      rfl
    · rw [if_neg (by simpa using hc), closeChunks_chunks, textItems_of_ne hc]

/-- The tokens of a class text, as the reader of patterns finds them. -/
def tokensIn (body : List Char) : List ClassToken :=
  if body.contains '-' then
    joinChunks (dropEmptyRanges (closeChunks
      (chunks (if body.head? == some '!' then 2 else 1) [] body)))
  else body.map .char

/-- What is left are the tokens of the proper items. -/
theorem tokensIn_eq (body : List Char) : tokensIn body = tokensOf (properItems body) := by
  unfold tokensIn
  by_cases h : '-' ∈ body
  · rw [if_pos (by simpa using h), closeChunks_textItems, dropEmptyRanges_chunksOf,
      joinChunks_chunksOf, properItems]
  · rw [if_neg (by simpa using h), tokensOf_of_notMem h]

theorem classPart_eq (body : List Char) : classPart body = partOf (tokensOf (properItems body)) := by
  rw [← tokensIn_eq]
  rfl

/-- Some item accepts a character if the items cover it. -/
theorem any_accepts_iff {items : List ClassItem} {c : Char} :
    (items.any fun item => item.accepts c) = true ↔ Covered items c := by
  rw [List.any_eq_true]
  exact exists_congr fun item => and_congr_right fun _ => ClassItem.accepts_iff

theorem acceptsChar_positive {items : List ClassItem} {c : Char} :
    acceptsChar (.oneOf false items) c = true ↔ Covered items c := by
  rw [acceptsChar, Bool.bne_false, any_accepts_iff]

theorem acceptsChar_negated {items : List ClassItem} {c : Char} :
    acceptsChar (.oneOf true items) c = true ↔ ¬ Covered items c := by
  rw [acceptsChar, Bool.bne_true, Bool.not_eq_true', ← Bool.not_eq_true, any_accepts_iff]

/-- A mark in front turns the class around. -/
theorem partOf_negated (tokens : List ClassToken) (c : Char) :
    acceptsChar (partOf (.char '!' :: tokens)) c = true ↔ ¬ Covered (classItems tokens) c := by
  cases tokens with
  | nil => simp [partOf, acceptsChar, classItems, Covered]
  | cons t tokens => exact acceptsChar_negated

/-- Without a mark the class covers what its tokens do. -/
theorem partOf_positive {tokens : List ClassToken} (hfirst : tokens.head? ≠ some (.char '!'))
    (c : Char) : acceptsChar (partOf tokens) c = true ↔ Covered (classItems tokens) c := by
  unfold partOf
  split
  · exact acceptsChar_positive
  · exact absurd rfl hfirst
  · exact absurd rfl hfirst
  · exact acceptsChar_positive

/-- **A class part accepts the characters of the class.** -/
theorem acceptsChar_classPart {c : Char} :
    acceptsChar (classPart body) c = true ↔ InClass body c := by
  rw [classPart_eq, InClass]
  generalize properItems body = items
  unfold Admits
  split
  · rename_i items
    rw [tokensOf, partOf_negated, classItems_tokensOf]
  · rename_i high items
    have hrest : classItems (.hyphen :: .char high :: tokensOf items) =
        .char '-' :: .char high :: items := by
      rw [classItems, ← tokensOf, classItems_tokensOf]
    rw [tokensOf, partOf_negated, hrest]
  · rename_i hchar hrange
    rw [partOf_positive, classItems_tokensOf]
    intro hfirst
    cases items with
    | nil => cases hfirst
    | cons item items =>
      cases item with
      | char d =>
        cases hfirst
        exact hchar items rfl
      | range low high =>
        cases hfirst
        exact hrange high items rfl

/-! ## Reading a pattern -/

/-- A star skips any beginning of the text. -/
theorem acceptsStar_iff {accept : List Char → Bool} : ∀ {text : List Char},
    acceptsStar accept text = true ↔ ∃ skipped left, text = skipped ++ left ∧ accept left = true
  | [] => by
    rw [acceptsStar]
    constructor
    · exact fun h => ⟨[], [], rfl, h⟩
    · rintro ⟨skipped, left, heq, h⟩
      obtain ⟨-, rfl⟩ := List.append_eq_nil_iff.mp heq.symm
      exact h
  | c :: text => by
    rw [acceptsStar, Bool.or_eq_true, acceptsStar_iff]
    constructor
    · rintro (h | ⟨skipped, left, rfl, h⟩)
      · exact ⟨[], c :: text, rfl, h⟩
      · exact ⟨c :: skipped, left, rfl, h⟩
    · rintro ⟨skipped, left, heq, h⟩
      cases skipped with
      | nil => exact Or.inl (heq ▸ h)
      | cons d skipped =>
        rw [List.cons_append, List.cons.injEq] at heq
        exact Or.inr ⟨skipped, left, heq.2, h⟩

theorem accepts_cons {part : GlobPart} (hpart : part ≠ .star) {parts : Glob} :
    accepts (part :: parts) text = true ↔
      ∃ c left, text = c :: left ∧ acceptsChar part c = true ∧ accepts parts left = true := by
  cases text with
  | nil =>
    rw [accepts]
    · simp
    · exact hpart
  | cons c left =>
    rw [accepts]
    · rw [Bool.and_eq_true]
      constructor
      · rintro ⟨hc, hleft⟩
        exact ⟨c, left, rfl, hc, hleft⟩
      · rintro ⟨d, left', heq, hd, hleft⟩
        cases heq
        exact ⟨hd, hleft⟩
    · exact hpart

theorem accepts_char {p : Char} {parts : Glob} :
    accepts (.char p :: parts) text = true ↔ ∃ left, text = p :: left ∧ accepts parts left = true := by
  have hpart : GlobPart.char p ≠ .star := by simp
  rw [accepts_cons hpart]
  constructor
  · rintro ⟨c, left, rfl, hc, hleft⟩
    obtain rfl : c = p := by simpa [acceptsChar] using hc
    exact ⟨left, rfl, hleft⟩
  · rintro ⟨left, rfl, hleft⟩
    exact ⟨p, left, rfl, by simp [acceptsChar], hleft⟩

theorem classPart_ne_star (body : List Char) : classPart body ≠ .star := by
  rw [classPart_eq]
  unfold partOf
  split <;> nofun

/-! ### The set of a glob, by the first part of its pattern -/

section Matches

variable {pattern : List Char} {p : Char}

theorem matches_nil_iff : Matches [] text ↔ text = [] := by
  constructor
  · rintro ⟨⟩
    rfl
  · rintro rfl
    exact .nil

/-- So it does in the relation. -/
theorem matches_star_iff :
    Matches ('*' :: pattern) text ↔ ∃ skipped left, text = skipped ++ left ∧ Matches pattern left := by
  constructor
  · intro h
    cases h with
    | star skipped rest => exact ⟨skipped, _, rfl, rest⟩
    | char hstar _ _ _ => exact absurd rfl hstar
  · rintro ⟨skipped, left, rfl, hleft⟩
    exact .star skipped hleft

theorem matches_any_iff :
    Matches ('?' :: pattern) text ↔ ∃ c left, text = c :: left ∧ Matches pattern left := by
  constructor
  · intro h
    cases h with
    | any c rest => exact ⟨c, _, rfl, rest⟩
    | char _ hany _ _ => exact absurd rfl hany
  · rintro ⟨c, left, rfl, hleft⟩
    exact .any c hleft

/-- A class takes one character of the text. -/
theorem matches_oneOf_iff (hbody : ClassText body) :
    Matches ('[' :: (body ++ ']' :: pattern)) text ↔
      ∃ c left, text = c :: left ∧ InClass body c ∧ Matches pattern left := by
  constructor
  · intro h
    generalize hwhole : body ++ ']' :: pattern = whole at h
    cases h with
    | oneOf closed inside rest =>
      -- the text of a class ends in one place only
      have hread := readClass_eq_some_iff.mpr ⟨hbody, hwhole.symm⟩
      rw [readClass_eq_some_iff.mpr ⟨closed, rfl⟩] at hread
      cases hread
      exact ⟨_, _, rfl, inside, rest⟩
    | bracket unclosed _ => exact absurd hwhole.symm (unclosed body pattern hbody)
    | char _ _ hbracket _ => exact absurd rfl hbracket
  · rintro ⟨c, left, rfl, hc, hleft⟩
    exact .oneOf hbody hc hleft

/-- A bracket that is not closed stands for itself. -/
theorem matches_bracket_iff
    (hunclosed : ∀ body after, ClassText body → pattern ≠ body ++ ']' :: after) :
    Matches ('[' :: pattern) text ↔ ∃ left, text = '[' :: left ∧ Matches pattern left := by
  constructor
  · intro h
    cases h with
    | oneOf closed _ _ => exact absurd rfl (hunclosed _ _ closed)
    | bracket _ rest => exact ⟨_, rfl, rest⟩
    | char _ _ hbracket _ => exact absurd rfl hbracket
  · rintro ⟨left, rfl, hleft⟩
    exact .bracket hunclosed hleft

/-- Other characters stand for themselves. -/
theorem matches_char_iff (hstar : p ≠ '*') (hany : p ≠ '?') (hbracket : p ≠ '[') :
    Matches (p :: pattern) text ↔ ∃ left, text = p :: left ∧ Matches pattern left := by
  constructor
  · intro h
    cases h with
    | char _ _ _ rest => exact ⟨_, rfl, rest⟩
    | star _ _ => exact absurd rfl hstar
    | any _ _ => exact absurd rfl hany
    | oneOf _ _ _ => exact absurd rfl hbracket
    | bracket _ _ => exact absurd rfl hbracket
  · rintro ⟨left, rfl, hleft⟩
    exact .char hstar hany hbracket hleft

end Matches

/-- **By induction on the steps left: reading a pattern and trying a text gives the set of the glob.** -/
theorem accepts_parseParts : ∀ {fuel : Nat} {pattern text : List Char}, pattern.length ≤ fuel →
    (accepts (parseParts fuel pattern) text = true ↔ Matches pattern text)
  | fuel, [], text, _ => by
    have hparts : parseParts fuel [] = [] := by cases fuel <;> rfl
    rw [hparts, accepts, List.isEmpty_iff, matches_nil_iff]
  | 0, _ :: _, _, hfuel => by simp at hfuel
  | fuel + 1, p :: pattern, text, hfuel => by
    have hlength : pattern.length ≤ fuel := by simpa using hfuel
    have ih : ∀ {text}, accepts (parseParts fuel pattern) text = true ↔ Matches pattern text :=
      accepts_parseParts hlength
    rw [parseParts]
    by_cases hstar : p = '*'
    · subst hstar
      rw [if_pos (beq_self_eq_true _), accepts, acceptsStar_iff, matches_star_iff]
      simp only [ih]
    rw [if_neg (by simpa using hstar)]
    by_cases hany : p = '?'
    · subst hany
      have hpart : GlobPart.any ≠ .star := by simp
      rw [if_pos (beq_self_eq_true _), accepts_cons hpart, matches_any_iff]
      simp only [ih, acceptsChar, true_and]
    rw [if_neg (by simpa using hany)]
    by_cases hbracket : p = '['
    · subst hbracket
      rw [if_pos (beq_self_eq_true _)]
      split
      · rename_i body after hread
        obtain ⟨hbody, rfl⟩ := readClass_eq_some_iff.mp hread
        have hafter : after.length ≤ fuel := by
          rw [List.length_append, List.length_cons] at hlength
          omega
        rw [accepts_cons (classPart_ne_star body), matches_oneOf_iff hbody]
        simp only [acceptsChar_classPart, accepts_parseParts hafter]
      · rename_i hread
        have hunclosed : ∀ body after, ClassText body → pattern ≠ body ++ ']' :: after := by
          intro body after hbody heq
          rw [readClass_eq_some_iff.mpr ⟨hbody, heq⟩] at hread
          cases hread
        rw [accepts_char, matches_bracket_iff hunclosed]
        simp only [ih]
    · rw [if_neg (by simpa using hbracket), accepts_char, matches_char_iff hstar hany hbracket]
      simp only [ih]

/-- **A pattern accepts the texts in the set of the glob.** -/
theorem accepts_parse_iff {pattern : List Char} :
    accepts (parse pattern) text = true ↔ Matches pattern text :=
  accepts_parseParts (Nat.le_refl _)

end Glob

end SchemaForge
