import Mathlib.Data.List.Infix
import SchemaForge.Naming.Stripping
import SchemaForge.Proofs.Naming.Glob

/-!
# What is left of a stripped name

A pattern matches some beginnings of a name: a literal one only itself, a glob the texts in its set.
Stripping takes away the longest beginning that the first pattern with a non-empty one matches, unless
this is the whole name (`strip_takes_longest`). So what is left is an end of the name and never empty.
-/

namespace SchemaForge.Naming

open Text

/-- The texts that a pattern matches: the set of a glob, or the pattern itself. -/
def PatternMatches (pattern text : List Char) : Prop :=
  if isGlob pattern then Glob.Matches pattern text else text = pattern

/-- A non-empty beginning of a text that a pattern matches. -/
structure MatchedBeginning (pattern text removed : List Char) : Prop where
  starts : removed <+: text
  nonempty : removed ≠ []
  matched : PatternMatches pattern removed

/-- The longest non-empty beginning of a text that a pattern matches. -/
structure LongestBeginning (pattern text removed : List Char) : Prop
    extends MatchedBeginning pattern text removed where
  longest : ∀ other, MatchedBeginning pattern text other → other.length ≤ removed.length

variable {pattern text removed left : List Char} {n : Nat}

/-! ## The longest beginning -/

/-- In a list that goes down, the first number with a property is the greatest one. -/
theorem find?_eq_some_iff_greatest {p : Nat → Bool} : ∀ {l : List Nat}, l.Pairwise (· > ·) →
    (l.find? p = some n ↔ (n ∈ l ∧ p n = true) ∧ ∀ m ∈ l, p m = true → m ≤ n)
  | [], _ => by simp
  | a :: l, h => by
    obtain ⟨habove, hl⟩ := List.pairwise_cons.mp h
    rw [List.find?_cons, List.forall_mem_cons]
    cases ha : p a with
    | true =>
      constructor
      · rintro ⟨⟩
        exact ⟨⟨List.mem_cons_self, ha⟩, fun _ => Nat.le_refl n, fun m hm _ =>
          Nat.le_of_lt (habove m hm)⟩
      · rintro ⟨⟨hn, -⟩, hle, -⟩
        rcases List.mem_cons.mp hn with rfl | hn
        · rfl
        · exact absurd (hle rfl) (Nat.not_le_of_lt (habove n hn))
    | false =>
      dsimp only
      rw [find?_eq_some_iff_greatest hl]
      constructor
      · rintro ⟨⟨hn, hpn⟩, hle⟩
        exact ⟨⟨List.mem_cons_of_mem _ hn, hpn⟩, nofun, hle⟩
      · rintro ⟨⟨hn, hpn⟩, -, hle⟩
        rcases List.mem_cons.mp hn with rfl | hn
        · rw [ha] at hpn
          cases hpn
        · exact ⟨⟨hn, hpn⟩, hle⟩

/-- The lengths that are tried, the greatest first. -/
def lengths (k : Nat) : List Nat := ((List.range k).map (· + 1)).reverse

/-- The beginnings that are tried are all but the empty one. -/
theorem mem_lengths {k m : Nat} : m ∈ lengths k ↔ 1 ≤ m ∧ m ≤ k := by
  rw [lengths, List.mem_reverse, List.mem_map]
  constructor
  · rintro ⟨i, hi, rfl⟩
    rw [List.mem_range] at hi
    omega
  · rintro ⟨hm, hk⟩
    exact ⟨m - 1, List.mem_range.mpr (by omega), by omega⟩

/-- The longest is tried first. -/
theorem pairwise_lengths (k : Nat) : (lengths k).Pairwise (· > ·) := by
  rw [lengths, List.pairwise_reverse, List.pairwise_map]
  exact List.pairwise_lt_range.imp fun h => by omega

/-! ## One pattern -/

theorem matchedBeginning_glob (hglob : isGlob pattern = true) :
    MatchedBeginning pattern text removed ↔ ∃ m ∈ lengths text.length,
      (Glob.parse pattern).accepts (text.take m) = true ∧ removed = text.take m := by
  have hmatches : ∀ t, PatternMatches pattern t ↔ (Glob.parse pattern).accepts t = true := by
    intro t
    rw [PatternMatches, if_pos hglob, Glob.accepts_parse_iff]
  constructor
  · rintro ⟨hstarts, hne, hmatched⟩
    have htake : removed = text.take removed.length := List.prefix_iff_eq_take.mp hstarts
    refine ⟨removed.length, mem_lengths.mpr ⟨?_, hstarts.length_le⟩, ?_, htake⟩
    · exact List.length_pos_iff.mpr hne
    · rw [← htake]
      exact (hmatches removed).mp hmatched
  · rintro ⟨m, hm, haccepts, rfl⟩
    obtain ⟨hpos, hle⟩ := mem_lengths.mp hm
    refine ⟨List.take_prefix m text, ?_, (hmatches _).mpr haccepts⟩
    rw [← List.length_pos_iff, List.length_take_of_le hle]
    exact hpos

theorem matchedBeginning_literal (hliteral : ¬ isGlob pattern = true) :
    MatchedBeginning pattern text removed ↔
      removed = pattern ∧ pattern ≠ [] ∧ pattern <+: text := by
  constructor
  · rintro ⟨hstarts, hne, hmatched⟩
    rw [PatternMatches, if_neg hliteral] at hmatched
    subst hmatched
    exact ⟨rfl, hne, hstarts⟩
  · rintro ⟨rfl, hne, hstarts⟩
    exact ⟨hstarts, hne, by rw [PatternMatches, if_neg hliteral]⟩

theorem stripOne_glob (hglob : isGlob pattern = true) : stripOne pattern text =
    ((lengths text.length).find? fun n => (Glob.parse pattern).accepts (text.take n)).map
      fun n => text.drop n := by
  unfold stripOne
  rw [if_pos hglob]
  rfl

theorem stripOne_literal (hliteral : ¬ isGlob pattern = true) : stripOne pattern text =
    if pattern ≠ [] ∧ pattern <+: text then some (text.drop pattern.length) else none := by
  have hcond : (!pattern.isEmpty && startsWith pattern text) = true ↔
      pattern ≠ [] ∧ pattern <+: text := by
    simp [startsWith_iff_isPrefix]
  unfold stripOne
  rw [if_neg hliteral]
  simp only [hcond]

/-- **A pattern takes away the longest beginning that it matches.** -/
theorem stripOne_eq_some_iff : stripOne pattern text = some left ↔
    ∃ removed, LongestBeginning pattern text removed ∧ text = removed ++ left := by
  by_cases hglob : isGlob pattern = true
  · rw [stripOne_glob hglob, Option.map_eq_some_iff]
    simp only [find?_eq_some_iff_greatest (pairwise_lengths text.length)]
    constructor
    · rintro ⟨n, ⟨⟨hmem, haccepts⟩, hgreatest⟩, rfl⟩
      have hmatched := (matchedBeginning_glob hglob).mpr ⟨n, hmem, haccepts, rfl⟩
      refine ⟨text.take n, ⟨hmatched, fun other hother => ?_⟩, (List.take_append_drop n text).symm⟩
      obtain ⟨m, hm, haccepts', rfl⟩ := (matchedBeginning_glob hglob).mp hother
      have hle := hgreatest m hm haccepts'
      simp only [List.length_take]
      omega
    · rintro ⟨removed, ⟨hmatched, hlongest⟩, heq⟩
      obtain ⟨n, hmem, haccepts, hremoved⟩ := (matchedBeginning_glob hglob).mp hmatched
      have hlength : ∀ {m : Nat}, m ∈ lengths text.length → (text.take m).length = m :=
        fun hm => List.length_take_of_le (mem_lengths.mp hm).2
      refine ⟨n, ⟨⟨hmem, haccepts⟩, fun m hm haccepts' => ?_⟩, ?_⟩
      · have hle := hlongest _ ((matchedBeginning_glob hglob).mpr ⟨m, hm, haccepts', rfl⟩)
        rwa [hremoved, hlength hm, hlength hmem] at hle
      · have hn : removed.length = n := by rw [hremoved, hlength hmem]
        rw [heq, ← hn, List.drop_left]
  · rw [stripOne_literal hglob]
    constructor
    · intro h
      split at h
      · rename_i hpattern
        obtain ⟨hne, rest, rfl⟩ := hpattern
        rw [List.drop_left, Option.some.injEq] at h
        subst h
        have hmatched := (matchedBeginning_literal hglob).mpr
          ⟨rfl, hne, List.prefix_append pattern rest⟩
        refine ⟨pattern, ⟨hmatched, fun other hother => ?_⟩, rfl⟩
        rw [((matchedBeginning_literal hglob).mp hother).1]
      · cases h
    · rintro ⟨removed, ⟨hmatched, -⟩, heq⟩
      obtain ⟨rfl, hpattern⟩ := (matchedBeginning_literal hglob).mp hmatched
      rw [if_pos hpattern, heq, List.drop_left]

/-- Nothing is removed if the pattern matches no beginning. -/
theorem stripOne_eq_none_iff :
    stripOne pattern text = none ↔ ∀ removed, ¬ MatchedBeginning pattern text removed := by
  by_cases hglob : isGlob pattern = true
  · rw [stripOne_glob hglob, Option.map_eq_none_iff, List.find?_eq_none]
    constructor
    · intro h removed hmatched
      obtain ⟨m, hm, haccepts, -⟩ := (matchedBeginning_glob hglob).mp hmatched
      exact h m hm haccepts
    · intro h m hm haccepts
      exact h _ ((matchedBeginning_glob hglob).mpr ⟨m, hm, haccepts, rfl⟩)
  · rw [stripOne_literal hglob]
    constructor
    · intro h removed hmatched
      rw [if_pos ((matchedBeginning_literal hglob).mp hmatched).2] at h
      cases h
    · intro h
      refine if_neg fun hpattern => ?_
      exact h pattern ((matchedBeginning_literal hglob).mpr ⟨rfl, hpattern⟩)

/-! ## Several patterns -/

/-- The first of some patterns that matches a non-empty beginning of a text. -/
def FirstMatching (patterns : List (List Char)) (text pattern : List Char) : Prop :=
  ∃ earlier later, patterns = earlier ++ pattern :: later ∧
    (∀ p ∈ earlier, ∀ removed, ¬ MatchedBeginning p text removed) ∧
    ∃ removed, MatchedBeginning pattern text removed

variable {patterns : List (List Char)}

/-- A name that is not empty is not stripped to nothing. -/
theorem stripChars_suffix (patterns : List (List Char)) (htext : text ≠ []) :
    stripChars patterns text ≠ [] ∧ stripChars patterns text <:+ text := by
  unfold stripChars
  split
  · exact ⟨htext, List.suffix_refl text⟩
  · rename_i rest hrest
    split
    · exact ⟨htext, List.suffix_refl text⟩
    · rename_i hne
      obtain ⟨p, -, hp⟩ := List.exists_of_findSome?_eq_some hrest
      obtain ⟨removed, -, rfl⟩ := stripOne_eq_some_iff.mp hp
      exact ⟨by simpa using hne, List.suffix_append removed rest⟩

/-- **The first pattern that matches counts**, and it leaves the name alone if it would take all of
it. -/
theorem stripChars_of_firstMatching (h : FirstMatching patterns text pattern) :
    ∃ removed, LongestBeginning pattern text removed ∧
      (removed = text → stripChars patterns text = text) ∧
      (removed ≠ text → text = removed ++ stripChars patterns text) := by
  obtain ⟨earlier, later, rfl, hearlier, removed, hmatched⟩ := h
  cases hstrip : stripOne pattern text with
  | none => exact absurd hmatched (stripOne_eq_none_iff.mp hstrip removed)
  | some left =>
    obtain ⟨longest, hlongest, heq⟩ := stripOne_eq_some_iff.mp hstrip
    have hfirst : (earlier ++ pattern :: later).findSome? (stripOne · text) = some left := by
      rw [List.findSome?_append, List.findSome?_eq_none_iff.mpr, Option.none_or,
        List.findSome?_cons, hstrip]
      exact fun p hp => stripOne_eq_none_iff.mpr (hearlier p hp)
    refine ⟨longest, hlongest, fun hwhole => ?_, fun hpart => ?_⟩
    · have hleft : left = [] := by simpa [hwhole] using heq
      rw [stripChars, hfirst, hleft]
      rfl
    · have hleft : left ≠ [] := by
        rintro rfl
        exact hpart (by simpa using heq.symm)
      rw [stripChars, hfirst]
      simpa [hleft] using heq

theorem stripChars_of_unmatched
    (h : ∀ p ∈ patterns, ∀ removed, ¬ MatchedBeginning p text removed) :
    stripChars patterns text = text := by
  have hnone : patterns.findSome? (stripOne · text) = none :=
    List.findSome?_eq_none_iff.mpr fun p hp => stripOne_eq_none_iff.mpr (h p hp)
  rw [stripChars, hnone]

/-- **Stripping takes away the longest beginning that the first pattern with one matches**, unless that
is all of the name. What is left is an end of the name and not empty. -/
theorem strip_takes_longest {patterns : List String} {name : String} (hname : name ≠ "") :
    ∃ left, strip (.many (patterns.map Value.text)) name = .ok left ∧
      left ≠ "" ∧ left.toList <:+ name.toList ∧
      (∀ pattern, FirstMatching (patterns.map String.toList) name.toList pattern →
        ∃ removed, LongestBeginning pattern name.toList removed ∧
          (removed = name.toList → left = name) ∧
          (removed ≠ name.toList → name.toList = removed ++ left.toList)) ∧
      ((∀ p ∈ patterns, ∀ removed, ¬ MatchedBeginning p.toList name.toList removed) →
        left = name) := by
  have htext : name.toList ≠ [] := by simpa using hname
  obtain ⟨hne, hsuffix⟩ := stripChars_suffix (patterns.map String.toList) htext
  refine ⟨String.ofList (stripChars (patterns.map String.toList) name.toList), ?_, ?_, ?_, ?_, ?_⟩
  · rw [strip, StripOption.patterns, stripValues_texts]
    rfl
  · intro hempty
    exact hne (by simpa using congrArg String.toList hempty)
  · rwa [String.toList_ofList]
  · intro pattern hfirst
    obtain ⟨removed, hlongest, hwhole, hpart⟩ := stripChars_of_firstMatching hfirst
    refine ⟨removed, hlongest, fun h => ?_, fun h => ?_⟩
    · rw [hwhole h, String.ofList_toList]
    · rw [String.toList_ofList]
      exact hpart h
  · intro hnone
    rw [stripChars_of_unmatched, String.ofList_toList]
    exact List.forall_mem_map.mpr hnone

/-- A literal pattern that does not match, and a glob with a class and two ways to match. -/
def versionPatterns : List String := ["Dto.", "api_v[!a-z]_*_"]

theorem strip_takes_longest_version : "api_v2_old_UserSchema" ≠ "" ∧
    strip (.many (versionPatterns.map Value.text)) "api_v2_old_UserSchema" = .ok "UserSchema" ∧
    ∃ removed, LongestBeginning "api_v[!a-z]_*_".toList "api_v2_old_UserSchema".toList removed ∧
      "api_v2_old_UserSchema".toList = removed ++ "UserSchema".toList := by
  have hname : "api_v2_old_UserSchema" ≠ "" := by decide
  have hstrip : strip (.many (versionPatterns.map Value.text)) "api_v2_old_UserSchema" =
      .ok "UserSchema" := by rfl
  have hfirst : FirstMatching (versionPatterns.map String.toList) "api_v2_old_UserSchema".toList
      "api_v[!a-z]_*_".toList := by
    refine ⟨["Dto.".toList], [], rfl, ?_, ?_⟩
    · rw [List.forall_mem_singleton]
      exact stripOne_eq_none_iff.mp (by decide)
    · obtain ⟨removed, hlongest, -⟩ := stripOne_eq_some_iff.mp
        (show stripOne "api_v[!a-z]_*_".toList "api_v2_old_UserSchema".toList =
          some "UserSchema".toList by decide)
      exact ⟨removed, hlongest.toMatchedBeginning⟩
  obtain ⟨left, hleft, -, -, hlongest, -⟩ := @strip_takes_longest versionPatterns _ hname
  rw [hstrip] at hleft
  cases hleft
  obtain ⟨removed, hremoved, hwhole, hpart⟩ := hlongest _ hfirst
  refine ⟨hname, hstrip, removed, hremoved, hpart fun heq => ?_⟩
  exact absurd (hwhole heq) (by decide)

end SchemaForge.Naming
