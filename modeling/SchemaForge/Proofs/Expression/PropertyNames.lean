import SchemaForge.Proofs.Expression.Script
import SchemaForge.Proofs.Text.Identifiers
import SchemaForge.Proofs.Text.StringLiteral
import SchemaForge.Text.Blank

/-!
# Which property a key or an access names

A key of an object literal is an identifier, which stands for itself, or a string literal; a
property is read after a dot or between brackets. `readKey` and `readAccess` read these, with white
space wherever tokens may have it around them, and give the units of the name.

A name without quotes is an identifier, or one with a line feed after it, and a reader skips that
line feed. So keys and accesses name the property that they were made from exactly if it is no
identifier with a line feed at its end.
-/

namespace SchemaForge.Script

open Text Naming

/-! ## Reading names -/

/-- White space and line breaks. -/
def isSpace (c : Char) : Bool :=
  let n := c.toNat
  (9 ≤ n && n ≤ 13) || n == 0x20 || n == 0xA0 || n == 0x1680 || (0x2000 ≤ n && n ≤ 0x200A) ||
    n == 0x2028 || n == 0x2029 || n == 0x202F || n == 0x205F || n == 0x3000 || n == 0xFEFF

/-- Reads an identifier at the start of a text: its units, and what follows it. -/
def readIdentifier (cs : List Char) : Option (List Nat × List Char) :=
  let (name, rest) := cs.span isPart
  if isIdentifier name then some (units name, rest) else none

/-- Only white space may follow what was read. -/
def complete : List Nat × List Char → Option (List Nat)
  | (us, rest) => if rest.all isSpace then some us else none

/-- Reads a key of an object literal. -/
def readKey (cs : List Char) : Option (List Nat) :=
  let cs := trimStart isSpace cs
  (readLiteral cs <|> readIdentifier cs).bind complete

/-- Reads what follows an object whose property is read. -/
def readAccess (cs : List Char) : Option (List Nat) :=
  match trimStart isSpace cs with
  | '.' :: cs => (readIdentifier (trimStart isSpace cs)).bind complete
  | '[' :: cs => do
    let (us, rest) ← readLiteral (trimStart isSpace cs)
    match trimStart isSpace rest with
    | ']' :: rest => complete (us, rest)
    | _ => none
  | _ => none

theorem trimStart_of_head {c : Char} {cs : List Char} (h : isSpace c = false) :
    trimStart isSpace (c :: cs) = c :: cs := by
  rw [trimStart, List.dropWhile_cons_of_neg (by rw [h]; exact Bool.false_ne_true)]

/-! ## Names without quotes -/

/-- An identifier of ASCII characters is an identifier. -/
theorem isIdentifier_of_isPlainName {cs : List Char} (h : Literal.isPlainName cs = true) :
    isIdentifier cs = true := by
  have hchars := isNameChar_of_isPlainName h
  cases cs with
  | nil => cases h
  | cons c cs =>
    refine isIdentifier_cons.mpr ⟨?_, fun d hd => ?_⟩
    · have hstart : Literal.isNameStart c = true := (Bool.and_eq_true_iff.mp h).1
      have hlt := toNat_lt_of_isNameChar (hchars c List.mem_cons_self)
      have hall := of_toNat_lt (P := fun c => !(Literal.isNameStart c && c.isDigit)) (by decide) hlt
      rw [isDigit_of_lt hlt]
      simpa [hstart] using hall
    · have hname := hchars d hd
      rw [isPart_of_lt (toNat_lt_of_isNameChar hname), hname]

theorem readIdentifier_append {cs rest : List Char} (h : isIdentifier cs = true)
    (hrest : ∀ c ∈ rest.head?, isPart c = false) :
    readIdentifier (cs ++ rest) = some (units cs, rest) := by
  have hparts : ∀ c ∈ cs, isPart c = true := by
    cases cs with
    | nil => cases h
    | cons c cs => exact (isIdentifier_cons.mp h).2
  have hstop : rest.takeWhile isPart = [] ∧ rest.dropWhile isPart = rest := by
    cases rest with
    | nil => exact ⟨rfl, rfl⟩
    | cons c rest =>
      have hc : ¬ isPart c = true := by rw [hrest c rfl]; exact Bool.false_ne_true
      exact ⟨List.takeWhile_cons_of_neg hc, List.dropWhile_cons_of_neg hc⟩
  have hspan : (cs ++ rest).span isPart = (cs, rest) := by
    rw [List.span_eq_takeWhile_dropWhile, List.takeWhile_append_of_pos hparts,
      List.dropWhile_append_of_pos hparts, hstop.1, hstop.2, List.append_nil]
  rw [readIdentifier, hspan]
  exact if_pos h

/-- What is read of a name: the name, without a line feed after an identifier. -/
inductive Bare : List Char → List Char → Prop where
  | self {cs : List Char} (h : ¬ TrailsLineFeed Literal.isPlainName cs) : Bare cs cs
  | trailing {cs : List Char} (h : Literal.isPlainName cs = true) : Bare (cs ++ ['\n']) cs

theorem exists_bare (cs : List Char) : ∃ ds, Bare cs ds := by
  by_cases h : TrailsLineFeed Literal.isPlainName cs
  · obtain ⟨before, hplain, rfl⟩ := h
    exact ⟨before, .trailing hplain⟩
  · exact ⟨cs, .self h⟩

/-- **A name is read as itself if no line feed is left out.** -/
theorem Bare.units_eq_iff {cs ds : List Char} (h : Bare cs ds) :
    units ds = units cs ↔ ¬ TrailsLineFeed Literal.isPlainName cs := by
  cases h with
  | self h => exact iff_of_true rfl h
  | trailing hplain =>
    refine iff_of_false (fun heq => ?_) fun hnot => hnot ⟨_, hplain, rfl⟩
    simpa using units_injective heq

/-- An unquoted name is an identifier with white space after it. -/
theorem Bare.of_isUnquoted {name : String} {ds : List Char} (h : Bare name.toList ds)
    (hname : Literal.isUnquoted name = true) :
    Literal.isPlainName ds = true ∧ ∃ space, name.toList = ds ++ space ∧
      space.all isSpace = true ∧ ∀ c ∈ space.head?, isPart c = false := by
  generalize hcs : name.toList = cs at h
  cases h with
  | self hnot =>
    rcases upToLineEnd_iff.mp hname with hplain | htrails
    · exact ⟨hcs ▸ hplain, [], (List.append_nil _).symm, rfl, fun c hc => by cases hc⟩
    · exact absurd (hcs ▸ htrails) hnot
  | trailing hplain =>
    refine ⟨hplain, ['\n'], rfl, by decide, fun c hc => ?_⟩
    obtain rfl : '\n' = c := Option.some.inj hc
    exact isPart_of_lt (by decide)

/-! ## Keys -/

theorem isSpace_eq_false_of_isNameChar {c : Char} (h : Literal.isNameChar c = true) :
    isSpace c = false := by
  have hall := of_toNat_lt (P := fun c => !(Literal.isNameChar c && isSpace c)) (by decide)
    (toNat_lt_of_isNameChar h)
  simpa [h] using hall

/-- No quote starts an identifier. -/
theorem readLiteral_of_isPlainName {cs : List Char} (h : Literal.isPlainName cs = true)
    (rest : List Char) : readLiteral (cs ++ rest) = none := by
  cases cs with
  | nil => cases h
  | cons c cs =>
    have hc := isNameChar_of_isPlainName h c List.mem_cons_self
    refine if_neg ?_
    rintro (rfl | rfl)
    · exact absurd hc (by decide)
    · exact absurd hc (by decide)

theorem trimStart_of_isPlainName {cs : List Char} (h : Literal.isPlainName cs = true)
    (rest : List Char) : trimStart isSpace (cs ++ rest) = cs ++ rest := by
  cases cs with
  | nil => cases h
  | cons c cs =>
    have hc := isNameChar_of_isPlainName h c List.mem_cons_self
    exact trimStart_of_head (isSpace_eq_false_of_isNameChar hc)

theorem trimStart_quote (s : String) (rest : List Char) :
    trimStart isSpace ((Literal.string s).toList ++ rest) = (Literal.string s).toList ++ rest := by
  have hstring : (Literal.string s).toList = '"' :: (Quoted.encodeChars false s.toList ++ ['"']) :=
    String.toList_ofList
  rw [hstring]
  exact trimStart_of_head rfl

theorem Bare.eq_of_not_isUnquoted {name : String} {ds : List Char} (h : Bare name.toList ds)
    (hname : ¬ Literal.isUnquoted name = true) : ds = name.toList := by
  generalize hcs : name.toList = cs at h
  cases h with
  | self => rfl
  | trailing hplain => exact absurd (upToLineEnd_iff.mpr (Or.inr ⟨ds, hplain, hcs⟩)) hname

/-- **What a key names**: the name it was made from, without a line feed after an identifier. -/
theorem readKey_key {name : String} {ds : List Char} (h : Bare name.toList ds) :
    readKey (Literal.key name).toList = some (units ds) := by
  unfold Literal.key
  split
  · rename_i hname
    obtain ⟨hplain, space, heq, hspace, hhead⟩ := h.of_isUnquoted hname
    have hread := readIdentifier_append (isIdentifier_of_isPlainName hplain) hhead
    rw [heq, readKey, trimStart_of_isPlainName hplain, readLiteral_of_isPlainName hplain, hread]
    exact if_pos hspace
  · rename_i hname
    rw [h.eq_of_not_isUnquoted hname, readKey, ← List.append_nil (Literal.string name).toList,
      trimStart_quote, Literal.string, readLiteral_quote]
    rfl

/-! ## Accesses -/

theorem readAccess_dot (cs : List Char) :
    readAccess ('.' :: cs) = (readIdentifier (trimStart isSpace cs)).bind complete := rfl

theorem readAccess_bracket {cs : List Char} {us : List Nat}
    (h : readLiteral (trimStart isSpace cs) = some (us, [']'])) :
    readAccess ('[' :: cs) = some us := by
  show (readLiteral (trimStart isSpace cs) >>= _) = _
  rw [h]
  rfl

/-- **What an access names**, likewise. -/
theorem readAccess_access {name : String} {ds : List Char} (h : Bare name.toList ds)
    (target : String) : ∃ rest, Literal.access target name = target ++ rest ∧
      readAccess rest.toList = some (units ds) := by
  unfold Literal.access
  split
  · rename_i hname
    obtain ⟨hplain, space, heq, hspace, hhead⟩ := h.of_isUnquoted hname
    have hread := readIdentifier_append (isIdentifier_of_isPlainName hplain) hhead
    refine ⟨"." ++ name, String.append_assoc .., ?_⟩
    have htext : ("." ++ name).toList = '.' :: (ds ++ space) := by
      rw [String.toList_append, heq]
      rfl
    rw [htext, readAccess_dot, trimStart_of_isPlainName hplain, hread]
    exact if_pos hspace
  · rename_i hname
    refine ⟨"[" ++ Literal.string name ++ "]", by simp only [String.append_assoc], ?_⟩
    have htext : ("[" ++ Literal.string name ++ "]").toList =
        '[' :: ((Literal.string name).toList ++ [']']) := by
      rw [String.toList_append, String.toList_append]
      rfl
    rw [htext, h.eq_of_not_isUnquoted hname]
    refine readAccess_bracket ?_
    rw [trimStart_quote, Literal.string, readLiteral_quote]

/-- **Keys and accesses name the property that they were made from, unless it is an identifier with
a line feed after it**: exactly then the line feed is skipped, and another property is named. -/
theorem property_named_iff (name : String) :
    (readKey (Literal.key name).toList = some (units name.toList) ↔
      ¬ TrailsLineFeed Literal.isPlainName name.toList) ∧
    ∀ target, ∃ rest, Literal.access target name = target ++ rest ∧
      (readAccess rest.toList = some (units name.toList) ↔
        ¬ TrailsLineFeed Literal.isPlainName name.toList) := by
  obtain ⟨ds, hds⟩ := exists_bare name.toList
  rw [readKey_key hds, Option.some.injEq]
  refine ⟨hds.units_eq_iff, fun target => ?_⟩
  obtain ⟨rest, haccess, hread⟩ := readAccess_access hds target
  refine ⟨rest, haccess, ?_⟩
  rw [hread, Option.some.injEq]
  exact hds.units_eq_iff

/-- A key that has to be quoted for its hyphen. -/
example : readKey (Literal.key "user-\u00e9\"").toList = some (units "user-\u00e9\"".toList) := by
  decide +kernel

/-- A property that is called `a` and a line feed gets the key, and is read as, the property `a`. -/
theorem not_named_trailing :
    (¬ ∀ name : String, readKey (Literal.key name).toList = some (units name.toList)) ∧
    ¬ ∀ name target : String, ∃ rest, Literal.access target name = target ++ rest ∧
      readAccess rest.toList = some (units name.toList) := by
  have hne : units ['a'] ≠ units "a\n".toList := by decide
  refine ⟨fun h => ?_, fun h => ?_⟩
  · have hkey : readKey (Literal.key "a\n").toList = some (units ['a']) := by decide +kernel
    exact hne (Option.some.inj (hkey.symm.trans (h "a\n")))
  · have haccess : Literal.access "obj" "a\n" = "obj" ++ ".a\n" := by decide
    have hread : readAccess ".a\n".toList = some (units ['a']) := by decide +kernel
    obtain ⟨rest, heq, hrest⟩ := h "a\n" "obj"
    obtain rfl : rest = ".a\n" := (String.append_right_inj "obj").mp (heq.symm.trans haccess)
    exact hne (Option.some.inj (hread.symm.trans hrest))

end SchemaForge.Script
