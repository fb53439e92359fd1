import SchemaForge.Compile.Objects
import SchemaForge.Config.DateTime
import SchemaForge.Proofs.Compile.History
import SchemaForge.Proofs.Expression.RegexSource

/-!
# Where patterns become literals

A pattern stands as a regular expression literal in the validator of a string, in the validator of
date-times and in the check on the names of properties. All three escape it in the same way, the
first one by way of a cache.

Strings and date-times do without a literal if the pattern is empty. The check on names does not: an
empty pattern for names gives two slashes, which start a comment.
-/

namespace SchemaForge.Compile

open Text

/-- Between slashes, `source` is emitted for `pattern`. -/
inductive Emitted (pattern source : String) : Prop where
  /-- By a modifier that the constraints of a string add. -/
  | string (schema : Fields) (base e : Expression) (p q : Progress) (added : List Modifier)
      (own : EscapesOwn p.caches.patterns) (given : schema.value "pattern" = .text pattern)
      (run : (stringConstraints schema base).run p = (.ok e, q))
      (grown : e.modifiers = base.modifiers ++ added)
      (mem : .mk "regex" [.regex source] ∈ added)
  /-- By the validator of date-times. -/
  | dateTime (e : Expression) (run : DateTime.validator (.text pattern) = .ok e)
      (mem : .mk "regex" [.regex source] ∈ e.modifiers)
  /-- By the check on the names of properties. -/
  | names (rules : Fields) (rest : List String) (given : rules.value "pattern" = .text pattern)
      (run : nameChecks rules = .ok (nameCheck ("!/" ++ source ++ "/.test(key)")
        ("must match pattern '" ++ pattern ++ "'") :: rest))

/-! ## Strings -/

/-- A string validator with the constraints on its length. -/
def lengths (schema : Fields) (e : Expression) : Expression :=
  let least := schema.value "minLength"
  let most := schema.value "maxLength"
  let e := if least.isNull then e else e.andThen "min" [.literal least]
  if most.isNull then e else e.andThen "max" [.literal most]

theorem lengths_modifiers (schema : Fields) (e : Expression) :
    ∃ added, (lengths schema e).modifiers = e.modifiers ++ added ∧
      ∀ m ∈ added, m.name ≠ "regex" := by
  have hwhen : ∀ (e : Expression) (v : Value) (name : String), name ≠ "regex" →
      ∃ added, (if v.isNull then e else e.andThen name [.literal v]).modifiers =
        e.modifiers ++ added ∧ ∀ m ∈ added, m.name ≠ "regex" := by
    intro e v name hname
    split
    · exact ⟨[], (List.append_nil _).symm, fun _ h => nomatch h⟩
    · exact ⟨[.mk name [.literal v]], rfl, List.forall_mem_singleton.mpr hname⟩
  obtain ⟨low, hlow, hlowNames⟩ := hwhen e (schema.value "minLength") "min" (by decide)
  obtain ⟨high, hhigh, hhighNames⟩ := hwhen _ (schema.value "maxLength") "max" (by decide)
  refine ⟨low ++ high, ?_, List.forall_mem_append.mpr ⟨hlowNames, hhighNames⟩⟩
  rw [← List.append_assoc, ← hlow]
  exact hhigh

theorem run_stringConstraints {schema : Fields} (base : Expression) {p : Progress}
    {pattern : String} (own : EscapesOwn p.caches.patterns)
    (given : schema.value "pattern" = .text pattern) :
    ∃ q, (stringConstraints schema base).run p = (.ok (if pattern = "" then lengths schema base else
      (lengths schema base).andThen "regex" [.regex (Literal.regex pattern)]), q) := by
  have hset : (schema.value "pattern").isSet = (pattern != "") := by rw [given]; rfl
  have hrun : stringConstraints schema base =
      if (pattern != "") = true then do
        return (lengths schema base).andThen "regex" [.regex (← escapedPattern (.text pattern))]
      else return lengths schema base := by
    rw [← hset, ← given]
    rfl
  rw [hrun]
  by_cases hempty : pattern = ""
  · rw [if_pos hempty, if_neg (by simpa using hempty)]
    exact ⟨p, rfl⟩
  · obtain ⟨patterns, -, hescaped⟩ := run_escapedPattern (t := pattern) own
    rw [if_neg hempty, if_pos (by simpa using hempty), run_bind_ok hescaped]
    exact ⟨_, rfl⟩

/-! ## Names of properties -/

theorem nameChecks_of_pattern {rules : Fields} {pattern : String}
    (given : rules.value "pattern" = .text pattern) :
    ∃ rest, nameChecks rules = .ok (nameCheck ("!/" ++ Literal.regex pattern ++ "/.test(key)")
      ("must match pattern '" ++ pattern ++ "'") :: rest) := by
  unfold nameChecks
  rw [given]
  exact ⟨_, rfl⟩

theorem nameCheck_source {source source' failure : String}
    (h : nameCheck ("!/" ++ source ++ "/.test(key)") failure =
      nameCheck ("!/" ++ source' ++ "/.test(key)") failure) : source = source' := by
  simpa [nameCheck] using h

/-! ## All places -/

/-- **Wherever a pattern becomes a literal, it is escaped in the same way.** -/
theorem Emitted.source_eq {pattern source : String} (h : Emitted pattern source) :
    source = Literal.regex pattern := by
  cases h with
  | string schema base e p q added own given run grown mem =>
    obtain ⟨r, hrun⟩ := run_stringConstraints base own given
    obtain ⟨plain, hplain, hnames⟩ := lengths_modifiers schema base
    rw [run] at hrun
    obtain rfl : e = _ := by injection hrun with h; injection h
    -- the modifiers for lengths have other names, so the literal is the one put after them
    split at grown
    · rw [hplain, List.append_cancel_left_eq] at grown
      exact absurd rfl (hnames _ (grown ▸ mem))
    · rw [Expression.andThen, hplain, List.append_assoc, List.append_cancel_left_eq] at grown
      rw [← grown] at mem
      rcases List.mem_append.mp mem with hmem | hmem
      · exact absurd rfl (hnames _ hmem)
      · simpa using hmem
  | dateTime e run mem =>
    unfold DateTime.validator at run
    split at run
    · dsimp only at run
      split at run
      · cases run
        simpa [Expression.andThen, zod] using mem
      · cases run
    · cases run
      cases mem
  | names rules rest given run =>
    obtain ⟨others, hchecks⟩ := nameChecks_of_pattern given
    rw [run] at hchecks
    exact nameCheck_source (List.cons.inj (Except.ok.inj hchecks)).1

/-- The literal of every pattern is emitted, by the check on names. -/
theorem emitted_names (pattern : String) : Emitted pattern (Literal.regex pattern) := by
  have given : Fields.value [(.text "pattern", .text pattern)] "pattern" = .text pattern := rfl
  obtain ⟨rest, run⟩ := nameChecks_of_pattern given
  exact .names _ rest given run

/-- Strings have a literal for every pattern that is not empty. -/
theorem emitted_string {pattern : String} (hne : pattern ≠ "") {p : Progress}
    (own : EscapesOwn p.caches.patterns) : Emitted pattern (Literal.regex pattern) := by
  have given : Fields.value [(.text "pattern", .text pattern)] "pattern" = .text pattern := rfl
  obtain ⟨q, run⟩ := run_stringConstraints (zod "string" []) own given
  rw [if_neg hne] at run
  exact .string _ _ _ p q _ own given run rfl (List.mem_singleton_self _)

/-- **A literal is complete if its pattern is not empty and has no line break right after an escaping
backslash**, and only then. -/
theorem complete_iff_safe {pattern source : String} (h : Emitted pattern source) :
    Literal.Complete pattern.toList source.toList ↔ Literal.Safe pattern.toList := by
  rw [h.source_eq, Literal.regex, String.toList_ofList]
  exact Literal.complete_regexSource

theorem complete_iff_safe_slash :
    Emitted "a/b" "a\\/b" ∧ Literal.Complete "a/b".toList "a\\/b".toList := by
  have h : Emitted "a/b" "a\\/b" := emitted_names "a/b"
  refine ⟨h, (complete_iff_safe h).mpr (Literal.safe_iff.mpr ⟨by decide, ?_⟩)⟩
  exact ⟨by decide, by decide, by decide, trivial⟩

/-- **Literals can be left incomplete**: by a line feed after a backslash, which stays as it is, and by
an empty pattern for names, which starts a comment. -/
theorem not_complete_emitted :
    (Emitted "\\\n" "\\\n" ∧ ¬ Literal.Complete "\\\n".toList "\\\n".toList) ∧
      Emitted "" "" ∧ ¬ Literal.Complete "".toList "".toList := by
  have own : EscapesOwn (.empty .unbounded) := Recency.all_empty .unbounded
  let start : Progress := ⟨{}, ⟨.empty .unbounded, .empty .unbounded⟩, []⟩
  have hfeed : Emitted "\\\n" "\\\n" := emitted_string (by decide) (p := start) own
  refine ⟨⟨hfeed, fun h => ?_⟩, emitted_names "", fun h => h.ne_nil rfl⟩
  exact (h.noBreak '\n' (by decide)).1 rfl

end SchemaForge.Compile
