import SchemaForge.EnumDeclaration
import SchemaForge.Proofs.Exports
import SchemaForge.Proofs.Naming.Member
import SchemaForge.Proofs.Text.QuotedBody

/-!
# The members of a declared enum

The text of a declaration is read back here by a reader of enum bodies that knows nothing of how they
are written: it cuts a body at the commas outside of quotes, up to the brace that ends the text, and
splits each piece into a name and a value. What it finds is one member for each value that is not
null, in order, under distinct names that are identifiers.
-/

namespace SchemaForge.EnumDeclaration

open Text Naming

/-! ## Reading a body -/

/-- A piece of a text and the pieces after it. -/
abbrev Pieces := List Char × List (List Char)

/-- Puts a text before the first piece. -/
def glue (t : List Char) (ps : Pieces) : Pieces := (t ++ ps.1, ps.2)

theorem glue_comp_glue (s t : List Char) : glue s ∘ glue t = glue (s ++ t) := by
  funext ps
  simp [glue]

theorem glue_nil : glue [] = id := rfl

/-- The pieces between the commas outside of quotes, up to a closing brace that ends the text. There
are none if a literal is left open or anything comes after the brace. -/
def pieces : Json.Mode → List Char → Option Pieces
  | _, [] => none
  | .escaped, c :: cs =>
    if Quoted.isLineBreak c then none else (pieces .quoted cs).map (glue [c])
  | .quoted, c :: cs =>
    if Quoted.isLineBreak c then none
    else if c = '\\' then (pieces .escaped cs).map (glue [c])
    else if c = '"' then (pieces .outside cs).map (glue [c])
    else (pieces .quoted cs).map (glue [c])
  | .outside, c :: cs =>
    if c = '\x7d' then if cs.isEmpty then some ([], []) else none
    else if c = ',' then (pieces .outside cs).map fun ps => ([], ps.1 :: ps.2)
    else if c = '"' then (pieces .quoted cs).map (glue [c])
    else (pieces .outside cs).map (glue [c])

/-- Reads a member: a name, and what comes after its equals sign. -/
def readMember (piece : List Char) : Option (String × String) :=
  match (trimStart isBlank piece).span (· != ' ') with
  | (name, ' ' :: '=' :: ' ' :: value) => some (String.ofList name, String.ofList value)
  | _ => none

/-- Reads members; the last piece may be blank. -/
def readMembers : List Char → List (List Char) → Option (List (String × String))
  | last, [] => if last.all isBlank then some [] else (readMember last).map ([·])
  | piece, next :: rest => do
    let member ← readMember piece
    let members ← readMembers next rest
    return member :: members

/-- Reads what follows the opening brace of a declaration. -/
def readBody (body : List Char) : Option (List (String × String)) := do
  let (first, rest) ← pieces .outside body
  readMembers first rest

/-! ## Texts inside one piece -/

/-- A text that is cut nowhere and leaves no literal open. -/
def Whole (t : List Char) : Prop :=
  ∀ rest, pieces .outside (t ++ rest) = (pieces .outside rest).map (glue t)

/-- Texts that are cut nowhere may follow each other. -/
theorem Whole.append {s t : List Char} (hs : Whole s) (ht : Whole t) : Whole (s ++ t) := by
  intro rest
  rw [List.append_assoc, hs, ht, Option.map_map, glue_comp_glue]

/-- A comma after such a text is where it is cut. -/
theorem Whole.comma {t : List Char} (h : Whole t) (rest : List Char) :
    pieces .outside (t ++ ',' :: rest) = (pieces .outside rest).map fun ps => (t, ps.1 :: ps.2) := by
  have hcomma : pieces .outside (',' :: rest) =
      (pieces .outside rest).map fun ps => ([], ps.1 :: ps.2) := rfl
  rw [h, hcomma, Option.map_map]
  simp [Function.comp_def, glue]

theorem whole_of_plain {t : List Char} (h : t.all Json.isPlain = true) : Whole t := by
  induction t with
  | nil =>
    intro rest
    rw [glue_nil, Option.map_id_fun]
    rfl
  | cons c t ih =>
    obtain ⟨hc, ht⟩ := Bool.and_eq_true_iff.mp h
    have hsingle : Whole [c] := by
      intro rest
      have hne : c ≠ '"' ∧ c ≠ '\x7d' ∧ c ≠ ',' := by
        simp only [Json.isPlain, Bool.not_eq_true', List.contains_eq_mem, List.mem_cons,
          List.not_mem_nil, or_false, decide_eq_false_iff_not, not_or] at hc
        exact ⟨hc.1, hc.2.2.2.2⟩
      rw [List.singleton_append, pieces, if_neg hne.2.1, if_neg hne.2.2, if_neg hne.1]
    exact hsingle.append (ih ht)

/-- A literal is passed over, with the commas in it. -/
theorem pieces_quoted {body : List Char} (h : Quoted.isBody body = true) (rest : List Char) :
    pieces .quoted (body ++ '"' :: rest) = (pieces .outside rest).map (glue (body ++ ['"'])) := by
  induction body using backslashRec with
  | nil => rfl
  | last => cases h
  | pair c cs ih =>
    rw [Quoted.isBody_pair, Bool.and_eq_true, Bool.not_eq_true'] at h
    show (pieces .escaped (c :: (cs ++ '"' :: rest))).map (glue ['\\']) = _
    rw [pieces, if_neg (by rw [h.1]; exact Bool.false_ne_true), ih h.2, Option.map_map,
      Option.map_map, glue_comp_glue, glue_comp_glue]
    rfl
  | bare c cs hback ih =>
    rw [Quoted.isBody_cons hback, Bool.and_eq_true, Bool.and_eq_true, Bool.not_eq_true',
      bne_iff_ne] at h
    obtain ⟨⟨hquote, hline⟩, hcs⟩ := h
    rw [List.cons_append, pieces, if_neg (by rw [hline]; exact Bool.false_ne_true), if_neg hback,
      if_neg hquote, ih hcs, Option.map_map, glue_comp_glue]
    rfl

/-- **A string literal stands in one piece, whatever text it is for.** -/
theorem whole_string (s : String) : Whole (Literal.string s).toList := by
  intro rest
  unfold Literal.string Json.quote Quoted.encode
  rw [String.toList_ofList]
  show (pieces .quoted (Quoted.encodeChars false s.toList ++ ['"'] ++ rest)).map (glue ['"']) = _
  rw [List.append_assoc, List.singleton_append, pieces_quoted (Quoted.isBody_encodeChars _ _),
    Option.map_map, glue_comp_glue]
  rfl

theorem whole_of_number {t : List Char} (h : Json.NumberText t) : Whole t :=
  whole_of_plain (List.all_eq_true.mpr h.isPlain)

/-- **The value of a member is cut nowhere**, be it quoted or a number. -/
theorem whole_memberValue (v : Value) : Whole (memberValue v).toList := by
  unfold memberValue
  split
  · exact whole_of_number (Json.numberText_intText _)
  · split
    · exact whole_of_number (Json.numberText_intText _)
    · exact whole_of_number (Json.numberText_decimals _)
  · exact whole_string _

/-! ## Members -/

/-- A member as it stands between two commas. -/
def memberText (m : String × String) : List Char :=
  '\n' :: ' ' :: ' ' :: (m.1.toList ++ ' ' :: '=' :: ' ' :: m.2.toList)

/-- A member that can be read back. -/
structure Readable (m : String × String) : Prop where
  name : isMemberName m.1.toList = true
  value : Whole m.2.toList

theorem isBlank_of_isMemberChar {c : Char} (h : isMemberChar c = true) :
    isBlank c = false ∧ c ≠ ' ' ∧ Json.isPlain c = true := by
  rcases Bool.or_eq_true_iff.mp h with halnum | hlow
  · have hall := of_isAlphanum
      (P := fun c => !c.isAlphanum || (!isBlank c && c != ' ' && Json.isPlain c)) (by decide) halnum
    simpa [halnum, and_assoc] using hall
  · obtain rfl : c = '_' := by simpa using hlow
    decide

/-- Names of members have no blanks, quotes or commas. -/
theorem isMemberChar_of_isMemberName {cs : List Char} (h : isMemberName cs = true) :
    ∀ c ∈ cs, isMemberChar c = true := by
  cases cs with
  | nil => cases h
  | cons c cs =>
    obtain ⟨hc, hcs⟩ := isMemberName_cons.mp h
    refine List.forall_mem_cons.mpr ⟨isMemberChar_of_isAlphanum ?_, hcs⟩
    rw [Char.isAlphanum, hc, Bool.true_or]

/-- **The reader takes a member apart into its name and its value.** -/
theorem readMember_memberText {m : String × String} (h : isMemberName m.1.toList = true) :
    readMember (memberText m) = some m := by
  obtain ⟨name, value⟩ := m
  have hchars := isMemberChar_of_isMemberName h
  dsimp only at h hchars
  have hname : (name.toList ++ ' ' :: '=' :: ' ' :: value.toList).dropWhile isBlank =
      name.toList ++ ' ' :: '=' :: ' ' :: value.toList := by
    cases hcs : name.toList with
    | nil => rw [hcs] at h; cases h
    | cons c cs =>
      have hc : c ∈ name.toList := by rw [hcs]; exact List.mem_cons_self
      exact List.dropWhile_cons_of_neg (by simp [(isBlank_of_isMemberChar (hchars c hc)).1])
  have htrim : trimStart isBlank (memberText (name, value)) =
      name.toList ++ ' ' :: '=' :: ' ' :: value.toList := by
    have hindent : ['\n', ' ', ' '].all isBlank = true := by decide
    rw [← hname]
    exact List.dropWhile_append_of_pos (List.all_eq_true.mp hindent)
  have hspan : (name.toList ++ ' ' :: '=' :: ' ' :: value.toList).span (· != ' ') =
      (name.toList, ' ' :: '=' :: ' ' :: value.toList) := by
    have hword : ∀ c ∈ name.toList, (c != ' ') = true := fun c hc =>
      bne_iff_ne.mpr (isBlank_of_isMemberChar (hchars c hc)).2.1
    rw [List.span_eq_takeWhile_dropWhile, List.takeWhile_append_of_pos hword,
      List.dropWhile_append_of_pos hword]
    simp
  rw [readMember, htrim, hspan]
  simp

theorem Readable.whole {m : String × String} (h : Readable m) : Whole (memberText m) := by
  have hblank : Whole ['\n', ' ', ' '] := whole_of_plain (by decide)
  have hequals : Whole [' ', '=', ' '] := whole_of_plain (by decide)
  have hname : Whole m.1.toList := whole_of_plain <| List.all_eq_true.mpr fun c hc =>
    (isBlank_of_isMemberChar (isMemberChar_of_isMemberName h.name c hc)).2.2
  exact hblank.append (hname.append (hequals.append h.value))

/-- **Members are read back from the body that lists them.** -/
theorem readBody_members : ∀ {ms : List (String × String)}, (∀ m ∈ ms, Readable m) →
    readBody (ms.flatMap (fun m => memberText m ++ [',']) ++ ['\n', '\x7d']) = some ms
  | [], _ => by decide
  | m :: ms, h => by
    obtain ⟨hm, hms⟩ := List.forall_mem_cons.mp h
    have ih := readBody_members hms
    unfold readBody at ih ⊢
    -- the first piece ends at the comma after the first member, wherever its value has commas
    rw [List.flatMap_cons, List.append_assoc, List.append_assoc, List.singleton_append,
      hm.whole.comma]
    obtain ⟨ps, hps, hread⟩ : ∃ ps : Pieces, _ ∧ readMembers ps.1 ps.2 = _ :=
      Option.bind_eq_some_iff.mp ih
    have hstep : readMembers (memberText m) (ps.1 :: ps.2) = some (m :: ms) := by
      rw [readMembers, readMember_memberText hm.name, hread]
      rfl
    rw [hps]
    exact hstep

/-! ## Declarations -/

theorem allocatesAll_memberNames (used : List String) (vs : List Value) :
    AllocatesAll used (vs.map memberCandidate) (memberNames used vs) := by
  induction vs generalizing used with
  | nil => exact .nil
  | cons v vs ih => exact .cons (allocates_freeName used (memberCandidate v)) (ih _)

/-- Every value has its own name. -/
theorem length_memberNames (used : List String) (vs : List Value) :
    (memberNames used vs).length = vs.length :=
  (allocatesAll_memberNames used vs).length_eq.trans (List.length_map _)

/-- **The names are identifiers**, also with a number behind. -/
theorem isMemberName_memberNames (used : List String) (vs : List Value) :
    ∀ name ∈ memberNames used vs, isMemberName name.toList = true := by
  induction vs generalizing used with
  | nil => exact fun _ h => nomatch h
  | cons v vs ih =>
    refine List.forall_mem_cons.mpr ⟨?_, ih _⟩
    exact isMemberName_freeName (isMemberName_memberCandidate v) used

/-- **Each name is allocated once**, and none that is taken before. -/
theorem memberNames_distinct (used : List String) (vs : List Value) :
    (memberNames used vs).Nodup ∧ ∀ name ∈ memberNames used vs, name ∉ used :=
  ⟨(allocatesAll_memberNames used vs).nodup, (allocatesAll_memberNames used vs).not_mem_taken⟩

/-- A name that is numbered can meet the name that another value asks for. -/
example : memberNames [] [.text "+a", .text "a-b", .int 12, .text "12", .int 122] =
    ["AAsc", "AB", "Value12", "Value122", "Value1222"] := by decide

theorem readable_members (values : List Value) : ∀ m ∈ members values, Readable m := by
  intro m hm
  obtain ⟨hname, hvalue⟩ := List.of_mem_zip hm
  refine ⟨isMemberName_memberNames _ _ _ hname, ?_⟩
  obtain ⟨v, -, heq⟩ := List.mem_map.mp hvalue
  rw [← heq]
  exact whole_memberValue v

/-- Lines that each start with a line break. -/
theorem toList_join_lines {lines : List String} (h : lines ≠ []) :
    '\n' :: (join "\n" lines).toList = lines.flatMap fun line => '\n' :: line.toList := by
  have hsep : "\n".toList = ['\n'] := by decide
  rw [join, String.toList_intercalate, hsep]
  induction lines with
  | nil => exact absurd rfl h
  | cons line lines ih =>
    cases lines with
    | nil => simp [List.intercalate]
    | cons next rest =>
      rw [List.flatMap_cons, ← ih (List.cons_ne_nil _ _)]
      simp [List.intercalate]

/-- What follows the opening brace of a declaration. -/
def body : List (String × String) → List Char
  | [] => ['\n', '\n', '\x7d']
  | ms => ms.flatMap (fun m => memberText m ++ [',']) ++ ['\n', '\x7d']

/-- **The reader finds the members of a body that is written from them.** -/
theorem readBody_body {ms : List (String × String)} (h : ∀ m ∈ ms, Readable m) :
    readBody (body ms) = some ms := by
  cases ms with
  | nil => decide
  | cons m ms => exact readBody_members h

theorem declaration_eq (name : String) (values : List Value) : declaration name values =
    (Export.enum name).opening ++ String.ofList (body (members values)) := by
  -- each line starts with a break: the first with the one after the brace, the others with the
  -- one that joins them to the line before
  have hlines : ("\n" ++
      join "\n" ((members values).map fun m => "  " ++ m.1 ++ " = " ++ m.2 ++ ",") ++
      "\n\x7d").toList = body (members values) := by
    rw [String.toList_append, String.toList_append]
    generalize members values = ms
    cases ms with
    | nil => decide
    | cons m ms =>
      show '\n' :: (join "\n" _).toList ++ ['\n', '\x7d'] = _
      rw [toList_join_lines (by simp)]
      simp [List.flatMap_map, body, memberText]
  rw [← hlines]
  apply String.ext
  simp [declaration, Export.opening_enum]

/-- **The declaration of an enum has one member for each value that is not null**, in order, and the
names of its members are distinct identifiers. -/
theorem members_of_declaration (typeName : String) (values : List Value) :
    ∃ (body : List Char) (names : List String), (ofValues typeName values .typescript).code =
        some ((Export.enum (nameOf typeName)).opening ++ String.ofList body) ∧
      readBody body = some (names.zip ((values.filter fun v => !v.isNull).map memberValue)) ∧
      names.length = (values.filter fun v => !v.isNull).length ∧
      names.Nodup ∧ ∀ name ∈ names, isMemberName name.toList = true := by
  refine ⟨body (members values), memberNames [] (memberValues values), ?_,
    readBody_body (readable_members values), length_memberNames _ _, (memberNames_distinct _ _).1,
    isMemberName_memberNames _ _⟩
  rw [← declaration_eq]
  rfl

end SchemaForge.EnumDeclaration
