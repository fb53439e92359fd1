import SchemaForge.Proofs.Configuration

/-!
# Configurations read back

A configuration is written as fields and read back from them, from the same fields in any order, and
with any of their names spelled in camel case (`ofFields_rewritten`).

Fields written otherwise set each option once, to the value that it had
(`Rewritten.settings_of_mem`). What is read from them is seen option by option: an option shows what
the last field for it says, and no other field changes it (`seen_readInto`).
-/

namespace SchemaForge

namespace Config

/-! ## Fields written otherwise -/

/-- A name of a field that spells an option: its own name, or a spelling in camel case. -/
inductive SpelledAs (option : String) : Scalar → Prop where
  | own : SpelledAs option (.text option)
  | camelCase {spelling : String} (listed : (spelling, option) ∈ optionAliases) :
      SpelledAs option (.text spelling)

/-- A field written otherwise: its name is spelled in one way or another, and its value is written
as `R` says for the option. -/
def WrittenAs (R : String → Value → Value → Prop) (f g : Scalar × Value) : Prop :=
  ∃ option, f.1 = .text option ∧ SpelledAs option g.1 ∧ R option f.2 g.2

/-- Fields written otherwise, in any order. -/
def Rewritten (R : String → Value → Value → Prop) (fields written : Fields) : Prop :=
  ∃ spelled, List.Forall₂ (WrittenAs R) fields spelled ∧ spelled.Perm written

/-- The value of an option written otherwise. Overrides are fields themselves and may be written
otherwise too, all other values stay as they are. -/
inductive SameSetting : String → Value → Value → Prop where
  | same (n : String) (v : Value) : SameSetting n v v
  | overrides {n : String} {fields written : Fields} (nested : n = "request" ∨ n = "response")
      (rewritten : Rewritten (fun _ v w => w = v) fields written) :
      SameSetting n (.object fields) (.object written)

/-- Fields of different names, each of them the own name of an option. -/
structure OwnNames (fields : Fields) : Prop where
  own : ∀ f ∈ fields, ∃ n, f.1 = .text n ∧ optionName n = n
  nodup : fields.names.Nodup

variable {R : String → Value → Value → Prop} {fields spelled written : Fields} {n : String}
  {v : Value}

theorem SpelledAs.exists_text {s : Scalar} (h : SpelledAs n s) (hn : optionName n = n) :
    ∃ text, s = .text text ∧ optionName text = n := by
  have hlisted : ∀ a ∈ optionAliases, optionName a.1 = a.2 := by decide
  cases h with
  | own => exact ⟨n, rfl, hn⟩
  | camelCase listed => exact ⟨_, rfl, hlisted _ listed⟩

theorem OwnNames.optionName_eq {f : Scalar × Value} (h : OwnNames fields) (hf : f ∈ fields)
    (hn : f.1 = .text n) : optionName n = n := by
  obtain ⟨m, hm, hown⟩ := h.own f hf
  cases hm.symm.trans hn
  exact hown

theorem OwnNames.tail {f : Scalar × Value} (h : OwnNames (f :: fields)) : OwnNames fields :=
  ⟨fun g hg => h.own g (List.mem_cons_of_mem _ hg), (List.nodup_cons.mp h.nodup).2⟩

/-! ### Settings -/

/-- A field written otherwise sets the option that it set before, and no other. -/
theorem sets_spelled {f g : Scalar × Value} {option : String} (hf : f.1 = .text option)
    (hspelled : SpelledAs option g.1) (hown : optionName option = option) :
    sets n g = true ↔ f.1 = .text n := by
  obtain ⟨text, hg, htext⟩ := hspelled.exists_text hown
  obtain ⟨name, w⟩ := g
  dsimp only at hg
  subst hg
  rw [hf, Scalar.text.injEq, sets, htext, beq_iff_eq]

theorem settings_spelled_of_notMem (hown : OwnNames fields)
    (h : List.Forall₂ (WrittenAs R) fields spelled) (hn : .text n ∉ fields.names) :
    settings n spelled = [] := by
  induction h with
  | nil => rfl
  | @cons f g fields spelled hfg _ ih =>
    obtain ⟨option, hf, hspelled, -⟩ := hfg
    rw [Fields.names, List.map_cons, List.mem_cons, not_or] at hn
    have hset := sets_spelled (n := n) hf hspelled (hown.optionName_eq List.mem_cons_self hf)
    rw [settings_cons, if_neg (fun hs => hn.1 (hset.mp hs).symm), ih hown.tail hn.2]

/-- **An option that is written once is set once**, however its name is spelled. -/
theorem settings_spelled_of_mem (hown : OwnNames fields)
    (h : List.Forall₂ (WrittenAs R) fields spelled) (hmem : (.text n, v) ∈ fields) :
    ∃ w, settings n spelled = [w] ∧ R n v w := by
  induction h with
  | nil => cases hmem
  | @cons f g fields spelled hfg hrest ih =>
    obtain ⟨option, hf, hspelled, hR⟩ := hfg
    have hset := sets_spelled (n := n) hf hspelled (hown.optionName_eq List.mem_cons_self hf)
    rw [settings_cons]
    rcases List.mem_cons.mp hmem with rfl | hmem
    · cases hf
      -- the names are different, so that no later field sets the option
      rw [if_pos (hset.mpr rfl), settings_spelled_of_notMem hown.tail hrest
        (List.nodup_cons.mp hown.nodup).1]
      exact ⟨g.2, rfl, hR⟩
    · have hne : f.1 ≠ .text n := by
        intro hfn
        exact (List.nodup_cons.mp hown.nodup).1 (List.mem_map.mpr ⟨_, hmem, hfn.symm⟩)
      rw [if_neg (fun hs => hne (hset.mp hs))]
      exact ih hown.tail hmem

/-- The order of the fields does not matter to what an option is set to, only to the order of its
settings. -/
theorem settings_perm (h : spelled.Perm written) :
    (settings n spelled).Perm (settings n written) :=
  List.Perm.map _ (h.filter (sets n))

/-- **Fields written otherwise set each option once**, to a value that is written as before or as
`R` says. -/
theorem Rewritten.settings_of_mem (h : Rewritten R fields written) (hown : OwnNames fields)
    (hmem : (.text n, v) ∈ fields) : ∃ w, settings n written = [w] ∧ R n v w := by
  obtain ⟨spelled, hspelled, hperm⟩ := h
  obtain ⟨w, hw, hR⟩ := settings_spelled_of_mem hown hspelled hmem
  refine ⟨w, ?_, hR⟩
  have hsettings := settings_perm (n := n) hperm
  rw [hw] at hsettings
  exact hsettings.singleton_eq.symm

theorem Rewritten.settings_of_notMem (h : Rewritten R fields written) (hown : OwnNames fields)
    (hn : .text n ∉ fields.names) : settings n written = [] := by
  obtain ⟨spelled, hspelled, hperm⟩ := h
  have hsettings := settings_perm (n := n) hperm
  rw [settings_spelled_of_notMem hown hspelled hn] at hsettings
  exact hsettings.nil_eq.symm

theorem Rewritten.refl (hown : OwnNames fields) (hR : ∀ n v, R n v v) :
    Rewritten R fields fields := by
  refine ⟨fields, ?_, List.Perm.refl _⟩
  refine List.forall₂_same.mpr fun f hf => ?_
  obtain ⟨n, hn, -⟩ := hown.own f hf
  exact ⟨n, hn, hn ▸ SpelledAs.own, hR n f.2⟩

/-- Every field sets an option that was set before. -/
theorem Rewritten.exists_field (h : Rewritten R fields written) (hown : OwnNames fields)
    {g : Scalar × Value} (hg : g ∈ written) :
    ∃ n v, (.text n, v) ∈ fields ∧ optionOf g.1 = .ok n ∧ R n v g.2 := by
  obtain ⟨spelled, hspelled, hperm⟩ := h
  obtain ⟨f, hf, n, hname, hspelledAs, hR⟩ :=
    Outcome.exists_left_of_mem hspelled (hperm.mem_iff.mpr hg)
  obtain ⟨text, htext, hoption⟩ := hspelledAs.exists_text (hown.optionName_eq hf hname)
  refine ⟨n, f.2, ?_, ?_, hR⟩
  · rw [← hname]
    exact hf
  · rw [htext, optionOf, hoption]

/-! ## Reading fields -/

section Reading

variable {σ β : Type} {setOption : σ → String → Value → Except Failure σ}

/-- Sets options from fields, one after the other. -/
def readInto (setOption : σ → String → Value → Except Failure σ) (s : σ) (fields : Fields) :
    Except Failure σ :=
  fields.foldlM (fun s f => do setOption s (← optionOf f.1) f.2) s

/-- Fields can be read if each of them can be set whatever was set before. -/
theorem exists_readInto : ∀ {fields : Fields} (s : σ),
    (∀ f ∈ fields, ∃ n, optionOf f.1 = .ok n ∧ ∀ s, ∃ s', setOption s n f.2 = .ok s') →
    ∃ s', readInto setOption s fields = .ok s'
  | [], s, _ => ⟨s, rfl⟩
  | f :: fields, s, h => by
    obtain ⟨⟨n, hn, hset⟩, hrest⟩ := List.forall_mem_cons.mp h
    obtain ⟨next, hnext⟩ := hset s
    obtain ⟨s', hs'⟩ := exists_readInto next hrest
    refine ⟨s', ?_⟩
    rw [readInto, List.foldlM_cons, hn, Outcome.ok_bind, hnext, Outcome.ok_bind]
    exact hs'

/-- **An option shows what the last field for it says**, or what it showed before. -/
theorem seen_readInto (see : σ → β) (reads : Value → β → Prop)
    (hset : ∀ {s s' v}, setOption s n v = .ok s' → reads v (see s'))
    (hkeep : ∀ {s s' k v}, k ≠ n → setOption s k v = .ok s' → see s' = see s) :
    ∀ {fields : Fields} {s s' : σ}, readInto setOption s fields = .ok s' →
      (settings n fields = [] ∧ see s' = see s) ∨
        ∃ v ∈ (settings n fields).getLast?, reads v (see s')
  | [], s, s', h => by
    cases h
    exact Or.inl ⟨rfl, rfl⟩
  | (name, v) :: fields, s, s', h => by
    obtain ⟨next, hstep, hrest⟩ : ∃ next, (do setOption s (← optionOf name) v) = .ok next ∧
        readInto setOption next fields = .ok s' := by
      rw [readInto, List.foldlM_cons] at h
      exact Outcome.bind_eq_ok.mp h
    obtain ⟨k, hk, hnext⟩ := Outcome.bind_eq_ok.mp hstep
    obtain ⟨text, rfl, htext⟩ := optionOf_eq_ok hk
    have ih := seen_readInto see reads hset hkeep hrest
    rw [settings_cons]
    by_cases hkn : k = n
    · have hsets : sets n (.text text, v) = true := by simp [sets, htext, hkn]
      rw [if_pos hsets]
      right
      rcases ih with ⟨hnone, hsee⟩ | ⟨w, hw, hreads⟩
      · rw [hnone, hsee]
        exact ⟨v, rfl, hset (hkn ▸ hnext)⟩
      · refine ⟨w, ?_, hreads⟩
        rw [Option.mem_def] at hw ⊢
        rw [List.getLast?_cons, hw, Option.getD_some]
    · have hsets : ¬ sets n (.text text, v) = true := by simp [sets, htext, hkn]
      rw [if_neg hsets, ← hkeep hkn hnext]
      exact ih

end Reading

/-! ## Choices -/

/-- Every member of a choice is listed, and no two members have the same word. -/
structure LawfulChoice (α : Type) [Choice α] : Prop where
  listed : ∀ m : α, m ∈ (Choice.members : List α)
  injective : Function.Injective (Choice.word (α := α))

theorem lawful_mode : LawfulChoice ObjectMode where
  listed m := by cases m <;> decide
  injective := Command.mode_injective

theorem lawful_visibility : LawfulChoice Visibility where
  listed m := by cases m <;> decide
  injective := Command.visibility_injective

theorem lawful_emptyObject : LawfulChoice EmptyObject where
  listed m := by cases m <;> decide
  injective := Command.emptyObject_injective

theorem lawful_enumStyle : LawfulChoice EnumStyle where
  listed m := by cases m <;> decide
  injective := Command.enumStyle_injective

/-- A member is named by its word. -/
theorem LawfulChoice.ofValue? {α : Type} [Choice α] (h : LawfulChoice α) (m : α) :
    Choice.ofValue? (.text (Choice.word m)) = some m := by
  unfold Choice.ofValue?
  cases hfind : (Choice.members : List α).find? fun m' =>
      (Value.text (Choice.word m) == .text (Choice.word m')) with
  | none => exact absurd (beq_self_eq_true _) (List.find?_eq_none.mp hfind m (h.listed m))
  | some m' =>
    have hword := List.find?_some hfind
    rw [beq_iff_eq, Value.scalar.injEq, Scalar.text.injEq] at hword
    rw [h.injective hword]

/-- Each choice is found by its word. -/
theorem LawfulChoice.choose {α : Type} [Choice α] (h : LawfulChoice α) (option : String) (m : α) :
    Config.choose option (.text (Choice.word m)) = .ok m := by
  rw [Config.choose, h.ofValue? m]

end Config

/-! ## Overrides -/

namespace Overrides

open Config

variable {o o' : Overrides} {n k : String} {v : Value} {written : Fields}

/-- The options that overrides set. -/
def optionNames : List String := ["mode", "use_describe", "include_descriptions"]

/-- What overrides say of an option, null if they do not set it. -/
def shown (o : Overrides) : String → Value
  | "mode" => o.mode.elim .null fun m => .text (Choice.word m)
  | "use_describe" => o.useDescribe
  | "include_descriptions" => o.includeDescriptions
  | _ => .null

theorem shown_empty (n : String) : ({} : Overrides).shown n = .null := by
  unfold shown
  split <;> rfl

/-- Overrides are what they say of the options. -/
theorem shown_injective (h : ∀ n ∈ optionNames, o.shown n = o'.shown n) : o = o' := by
  obtain ⟨mode, useDescribe, includeDescriptions⟩ := o
  obtain ⟨mode', useDescribe', includeDescriptions'⟩ := o'
  have hmode := h "mode" (by decide)
  have huse : useDescribe = useDescribe' := h "use_describe" (by decide)
  have hinclude : includeDescriptions = includeDescriptions' := h "include_descriptions" (by decide)
  have hmodes : mode = mode' := by
    cases mode <;> cases mode' <;> simp_all [shown, Command.mode_injective.eq_iff]
  rw [hmodes, huse, hinclude]

theorem eq_null_of_isNull (h : v.isNull = true) : v = .null := by
  unfold Value.isNull at h
  split at h
  · rfl
  · cases h

/-- The field of an option, if it is set. -/
def fieldIfSet (n : String) (v : Value) : Fields := if v.isNull then [] else [(.text n, v)]

theorem mem_fieldIfSet {w : Value} :
    (.text n, v) ∈ fieldIfSet k w ↔ n = k ∧ w = v ∧ v.isNull = false := by
  unfold fieldIfSet
  split <;> simp only [List.not_mem_nil, List.mem_singleton, Prod.mk.injEq, Scalar.text.injEq] <;>
    grind

theorem names_fieldIfSet (n : String) (v : Value) :
    (fieldIfSet n v).names.Sublist [.text n] := by
  unfold fieldIfSet
  split <;> simp [Fields.names]

theorem toFields_eq (o : Overrides) : o.toFields = fieldIfSet "mode" (o.shown "mode") ++
    fieldIfSet "use_describe" (o.shown "use_describe") ++
    fieldIfSet "include_descriptions" (o.shown "include_descriptions") := by
  obtain ⟨mode, useDescribe, includeDescriptions⟩ := o
  cases mode <;> rfl

/-- What is written of some overrides is what they set. -/
theorem mem_toFields : (.text n, v) ∈ o.toFields ↔ o.shown n = v ∧ v.isNull = false := by
  rw [toFields_eq, List.mem_append, List.mem_append, mem_fieldIfSet, mem_fieldIfSet, mem_fieldIfSet]
  constructor
  · rintro ((⟨rfl, h⟩ | ⟨rfl, h⟩) | ⟨rfl, h⟩) <;> exact h
  · rintro ⟨rfl, hset⟩
    unfold shown at hset ⊢
    split at hset
    · exact Or.inl (Or.inl ⟨rfl, rfl, hset⟩)
    · exact Or.inl (Or.inr ⟨rfl, rfl, hset⟩)
    · exact Or.inr ⟨rfl, rfl, hset⟩
    · cases hset

theorem names_toFields (o : Overrides) : o.toFields.names.Sublist (optionNames.map .text) := by
  rw [toFields_eq, Fields.names, List.map_append, List.map_append]
  exact ((names_fieldIfSet _ _).append (names_fieldIfSet _ _)).append (names_fieldIfSet _ _)

theorem ownNames_toFields (o : Overrides) : OwnNames o.toFields where
  own f hf := by
    have hown : ∀ n ∈ optionNames, optionName n = n := by decide
    obtain ⟨n, hn, hname⟩ := List.mem_map.mp ((names_toFields o).subset (List.mem_map_of_mem hf))
    exact ⟨n, hname.symm, hown n hn⟩
  nodup := by
    have hnodup : (optionNames.map Scalar.text).Nodup := by decide
    exact hnodup.sublist (names_toFields o)

/-! ### Setting one option -/

/-- Setting an override shows it. -/
theorem shown_setOption_self (hn : n ∈ optionNames) (h : o.setOption n v = .ok o') :
    o'.shown n = v := by
  simp only [optionNames, List.mem_cons, List.not_mem_nil, or_false] at hn
  rcases hn with rfl | rfl | rfl
  · obtain ⟨m, hm, hset⟩ := Outcome.bind_eq_ok.mp h
    cases hset
    unfold Choice.ofValue at hm
    split at hm
    · rename_i m' hfind
      cases hm
      exact (by simpa using List.find?_some hfind : v = .text (Choice.word m)).symm
    · cases hm
  · cases h
    rfl
  · cases h
    rfl

/-- The others are as they were. -/
theorem shown_setOption_of_ne (hkn : k ≠ n) (h : o.setOption k v = .ok o') :
    o'.shown n = o.shown n := by
  unfold setOption at h
  split at h
  · rename_i hk
    obtain ⟨m, -, hset⟩ := Outcome.bind_eq_ok.mp h
    cases hset
    unfold shown
    split <;> simp_all
  · split at h
    · cases h
      unfold shown
      split <;> simp_all
    · split at h
      · cases h
        unfold shown
        split <;> simp_all
      · cases h
        rfl

/-- A field of overrides can be set whatever was set before. -/
theorem exists_setOption (h : (.text n, v) ∈ o.toFields) (before : Overrides) :
    ∃ after, before.setOption n v = .ok after := by
  rw [toFields_eq, List.mem_append, List.mem_append, mem_fieldIfSet, mem_fieldIfSet,
    mem_fieldIfSet] at h
  obtain (⟨rfl, hv, hset⟩ | ⟨rfl, -, -⟩) | ⟨rfl, -, -⟩ := h
  · subst hv
    cases hmode : o.mode with
    | none => simp [shown, hmode, Value.isNull] at hset
    | some m =>
      refine ⟨{ before with mode := some m }, ?_⟩
      have hchosen : Choice.ofValue (o.shown "mode") = .ok m := by
        simp [shown, hmode, Choice.ofValue, lawful_mode.ofValue? m]
      rw [setOption, if_pos (beq_self_eq_true _), hchosen]
      rfl
  · exact ⟨_, rfl⟩
  · exact ⟨_, rfl⟩

/-- What overrides say of an option is what is read back for it. -/
theorem shown_of_read (hread : readInto Overrides.setOption {} written = .ok o')
    (h : Rewritten (fun _ v w => w = v) o.toFields written) (hn : n ∈ optionNames) :
    o'.shown n = o.shown n := by
  have hown := ownNames_toFields o
  have hseen := seen_readInto (fun o : Overrides => o.shown n) (fun v b => b = v)
    (shown_setOption_self hn) shown_setOption_of_ne hread
  cases hnull : (o.shown n).isNull with
  | false =>
    obtain ⟨w, hsettings, rfl⟩ := h.settings_of_mem hown (mem_toFields.mpr ⟨rfl, hnull⟩)
    rw [hsettings] at hseen
    obtain ⟨hnone, -⟩ | ⟨w, hw, hsee⟩ := hseen
    · cases hnone
    · cases hw
      exact hsee
  | true =>
    -- nothing is written for the option, and before anything is read it is not set
    have hnotMem : .text n ∉ o.toFields.names := by
      intro hin
      obtain ⟨⟨name, v⟩, hf, rfl⟩ := List.mem_map.mp hin
      obtain ⟨rfl, hset⟩ := mem_toFields.mp hf
      rw [hnull] at hset
      cases hset
    rw [h.settings_of_notMem hown hnotMem] at hseen
    obtain ⟨-, hsee⟩ | ⟨w, hw, -⟩ := hseen
    · rw [hsee, eq_null_of_isNull hnull]
      exact shown_empty n
    · cases hw

/-- **Overrides are read back from their fields written otherwise.** -/
theorem ofFields_rewritten (h : Rewritten (fun _ v w => w = v) o.toFields written) :
    Overrides.ofFields written = .ok o := by
  obtain ⟨o', hread⟩ : ∃ o', readInto Overrides.setOption {} written = .ok o' := by
    refine exists_readInto _ fun g hg => ?_
    obtain ⟨n, v, hf, hn, hv⟩ := h.exists_field (ownNames_toFields o) hg
    rw [hv]
    exact ⟨n, hn, exists_setOption hf⟩
  rw [shown_injective fun n hn => shown_of_read hread h hn] at hread
  exact hread

end Overrides

/-! ## Configurations -/

namespace Config

variable {c c' : Config} {request response o : Overrides} {n k : String} {v w : Value}
  {written : Fields}

/-! ### Setting one option -/

/-- The options of a configuration, its overrides apart. -/
def plainNames : List String :=
  ["mode", "schema_type", "default_nullable", "empty_object_behavior", "enum_type", "prefix",
   "suffix", "strip_schema_prefix", "include_descriptions", "use_describe",
   "custom_date_time_format_regex", "separate_types_file", "types_import_path", "show_stats",
   "cache_size", "max_depth"]

theorem options_eq_map (c : Config) :
    c.options = plainNames.map fun n => (.text n, c.options.value n) := rfl

/-- A configuration is its options and its overrides. -/
theorem eq_of_values (hvalues : ∀ n ∈ plainNames, c'.options.value n = c.options.value n)
    (hrequest : c'.request = c.request) (hresponse : c'.response = c.response) : c' = c := by
  have hoptions : c'.options = c.options := by
    rw [options_eq_map c', options_eq_map c]
    exact List.map_congr_left fun n hn => by rw [hvalues n hn]
  obtain ⟨⟩ := c
  obtain ⟨⟩ := c'
  simp only [options, List.cons.injEq, Prod.mk.injEq, true_and, and_true, Value.scalar.injEq,
    Scalar.text.injEq, Command.mode_injective.eq_iff, Command.visibility_injective.eq_iff,
    Command.emptyObject_injective.eq_iff, Command.enumStyle_injective.eq_iff] at hoptions
  simp_all

/-- The value of an option can be set whatever was set before. -/
theorem exists_setOption (h : (.text n, v) ∈ c.options) (before : Config) :
    ∃ after, before.setOption n v = .ok after := by
  simp only [options, List.mem_cons, Prod.mk.injEq, Scalar.text.injEq, List.not_mem_nil,
    or_false] at h
  rcases h with ⟨rfl, rfl⟩ | ⟨rfl, rfl⟩ | ⟨rfl, rfl⟩ | ⟨rfl, rfl⟩ | ⟨rfl, rfl⟩ | ⟨rfl, rfl⟩ |
    ⟨rfl, rfl⟩ | ⟨rfl, rfl⟩ | ⟨rfl, rfl⟩ | ⟨rfl, rfl⟩ | ⟨rfl, rfl⟩ | ⟨rfl, rfl⟩ | ⟨rfl, rfl⟩ |
    ⟨rfl, rfl⟩ | ⟨rfl, rfl⟩ | ⟨rfl, rfl⟩
  · exact ⟨_, Outcome.bind_eq_ok.mpr ⟨_, lawful_mode.choose _ _, rfl⟩⟩
  · exact ⟨_, Outcome.bind_eq_ok.mpr ⟨_, lawful_visibility.choose _ _, rfl⟩⟩
  · exact ⟨_, rfl⟩
  · exact ⟨_, Outcome.bind_eq_ok.mpr ⟨_, lawful_emptyObject.choose _ _, rfl⟩⟩
  · exact ⟨_, Outcome.bind_eq_ok.mpr ⟨_, lawful_enumStyle.choose _ _, rfl⟩⟩
  all_goals exact ⟨_, rfl⟩

theorem request_setOption (h : c.setOption "request" v = .ok c') :
    overridesOf v = .ok c'.request := by
  obtain ⟨o, ho, hset⟩ := Outcome.bind_eq_ok.mp h
  cases hset
  exact ho

theorem response_setOption (h : c.setOption "response" v = .ok c') :
    overridesOf v = .ok c'.response := by
  obtain ⟨o, ho, hset⟩ := Outcome.bind_eq_ok.mp h
  cases hset
  exact ho

/-- Overrides are kept by every option but their own. -/
theorem overrides_setOption_of_ne (h : c.setOption k v = .ok c') :
    (k ≠ "request" → c'.request = c.request) ∧ (k ≠ "response" → c'.response = c.response) := by
  unfold setOption at h
  split at h
  iterate 4
    obtain ⟨m, -, hset⟩ := Outcome.bind_eq_ok.mp h
    cases hset
    exact ⟨fun _ => rfl, fun _ => rfl⟩
  · obtain ⟨m, -, hset⟩ := Outcome.bind_eq_ok.mp h
    cases hset
    exact ⟨fun hne => absurd rfl hne, fun _ => rfl⟩
  · obtain ⟨m, -, hset⟩ := Outcome.bind_eq_ok.mp h
    cases hset
    exact ⟨fun _ => rfl, fun hne => absurd rfl hne⟩
  all_goals
    cases h
    exact ⟨fun _ => rfl, fun _ => rfl⟩

/-! ### Overrides written otherwise -/

theorem SameSetting.eq_of_ne (h : SameSetting n v w) (hrequest : n ≠ "request")
    (hresponse : n ≠ "response") : w = v := by
  cases h with
  | same => rfl
  | overrides nested => exact absurd nested (not_or.mpr ⟨hrequest, hresponse⟩)

/-- Overrides written otherwise are the same overrides. -/
theorem SameSetting.overridesOf (h : SameSetting n (.object o.toFields) w) :
    overridesOf w = .ok (.overrides o) := by
  have hread : ∃ written, w = .object written ∧ Overrides.ofFields written = .ok o := by
    cases h with
    | same =>
      have hsame := Rewritten.refl (R := fun _ v w => w = v) (Overrides.ownNames_toFields o)
        fun _ _ => rfl
      exact ⟨_, rfl, Overrides.ofFields_rewritten hsame⟩
    | overrides nested rewritten => exact ⟨_, rfl, Overrides.ofFields_rewritten rewritten⟩
  obtain ⟨written, rfl, hwritten⟩ := hread
  rw [Config.overridesOf, hwritten]
  rfl

/-! ### Reading back -/

/-- The fields of a configuration with these overrides. -/
def fieldsWith (c : Config) (request response : Overrides) : Fields :=
  c.options ++ [(.text "request", .object request.toFields),
    (.text "response", .object response.toFields)]

/-- A configuration with proper overrides can be written. -/
theorem toFields_eq_ok (hrequest : c.request = .overrides request)
    (hresponse : c.response = .overrides response) :
    c.toFields = .ok (c.fieldsWith request response) := by
  rw [toFields, hrequest, hresponse]
  rfl

theorem names_fieldsWith (c : Config) (request response : Overrides) :
    (c.fieldsWith request response).names = (plainNames ++ ["request", "response"]).map .text := rfl

theorem ownNames_fieldsWith (c : Config) (request response : Overrides) :
    OwnNames (c.fieldsWith request response) where
  own f hf := by
    have hown : ∀ n ∈ plainNames ++ ["request", "response"], optionName n = n := by decide
    have hname : f.1 ∈ (c.fieldsWith request response).names := List.mem_map_of_mem hf
    rw [names_fieldsWith] at hname
    obtain ⟨n, hn, hfn⟩ := List.mem_map.mp hname
    exact ⟨n, hfn.symm, hown n hn⟩
  nodup := by
    rw [names_fieldsWith]
    decide

theorem ne_of_mem_plainNames (hn : n ∈ plainNames) : n ≠ "request" ∧ n ≠ "response" := by
  have hall : ∀ m ∈ plainNames, m ≠ "request" ∧ m ≠ "response" := by decide
  exact hall n hn

theorem mem_plainNames_of_mem_options (h : (.text n, v) ∈ c.options) : n ∈ plainNames := by
  obtain ⟨m, hm, hfield⟩ := List.mem_map.mp (options_eq_map c ▸ h)
  cases hfield
  exact hm

/-- Each written option can be set. -/
theorem exists_setOption_written (h : (.text n, v) ∈ c.fieldsWith request response)
    (hsame : SameSetting n v w) (before : Config) : ∃ after, before.setOption n w = .ok after := by
  rcases List.mem_append.mp h with hoption | hoverrides
  · obtain ⟨hrequest, hresponse⟩ := ne_of_mem_plainNames (mem_plainNames_of_mem_options hoption)
    rw [hsame.eq_of_ne hrequest hresponse]
    exact exists_setOption hoption before
  · simp only [List.mem_cons, Prod.mk.injEq, Scalar.text.injEq, List.not_mem_nil,
      or_false] at hoverrides
    rcases hoverrides with ⟨rfl, rfl⟩ | ⟨rfl, rfl⟩
    · exact ⟨_, Outcome.bind_eq_ok.mpr ⟨_, hsame.overridesOf, rfl⟩⟩
    · exact ⟨_, Outcome.bind_eq_ok.mpr ⟨_, hsame.overridesOf, rfl⟩⟩

/-- The value that an option is read back with. -/
theorem value_of_read (hread : readInto setOption {} written = .ok c')
    (h : Rewritten SameSetting (c.fieldsWith request response) written) (hn : n ∈ plainNames) :
    c'.options.value n = c.options.value n := by
  have hmem : (.text n, c.options.value n) ∈ c.options := by
    rw [options_eq_map c]
    exact List.mem_map_of_mem hn
  obtain ⟨w, hsettings, hsame⟩ := h.settings_of_mem (ownNames_fieldsWith c request response)
    (List.mem_append_left _ hmem)
  have hhas : ({} : Config).options.has n = true := by
    rw [Fields.has_iff_mem_names, names_options {} c]
    exact List.mem_map_of_mem hmem
  have hget := get?_options_foldlM hread hhas
  rw [hsettings] at hget
  rw [Fields.value_of_get? hget]
  obtain ⟨hrequest, hresponse⟩ := ne_of_mem_plainNames hn
  exact hsame.eq_of_ne hrequest hresponse

/-- The overrides that are read back for an option which is seen in the configuration. -/
theorem overrides_of_read {see : Config → OverridesOption}
    (hset : ∀ {c c' v}, setOption c n v = .ok c' → overridesOf v = .ok (see c'))
    (hkeep : ∀ {c c' k v}, k ≠ n → setOption c k v = .ok c' → see c' = see c)
    (hread : readInto setOption {} written = .ok c')
    (h : Rewritten SameSetting (c.fieldsWith request response) written)
    (hmem : (.text n, .object o.toFields) ∈ c.fieldsWith request response) :
    see c' = .overrides o := by
  obtain ⟨w, hsettings, hsame⟩ := h.settings_of_mem (ownNames_fieldsWith c request response) hmem
  have hseen := seen_readInto see (fun v b => overridesOf v = .ok b) hset hkeep hread
  rw [hsettings] at hseen
  obtain ⟨hnone, -⟩ | ⟨v, hv, hsee⟩ := hseen
  · cases hnone
  · rw [List.getLast?_singleton] at hv
    cases hv
    exact Except.ok.inj (hsee.symm.trans hsame.overridesOf)

/-- **Reading a rewritten configuration gives the configuration.** -/
theorem ofFields_rewritten (hrequest : c.request = .overrides request)
    (hresponse : c.response = .overrides response)
    (h : Rewritten SameSetting (c.fieldsWith request response) written) :
    ofFields written = .ok c := by
  obtain ⟨c', hread⟩ : ∃ c', readInto setOption {} written = .ok c' := by
    refine exists_readInto _ fun g hg => ?_
    obtain ⟨n, v, hf, hn, hsame⟩ := h.exists_field (ownNames_fieldsWith c request response) hg
    exact ⟨n, hn, exists_setOption_written hf hsame⟩
  have hrequest' : c'.request = .overrides request :=
    overrides_of_read request_setOption (fun hne hset => (overrides_setOption_of_ne hset).1 hne)
      hread h (by simp [fieldsWith])
  have hresponse' : c'.response = .overrides response :=
    overrides_of_read response_setOption (fun hne hset => (overrides_setOption_of_ne hset).2 hne)
      hread h (by simp [fieldsWith])
  rw [← eq_of_values (fun n hn => value_of_read hread h hn) (hrequest'.trans hrequest.symm)
    (hresponse'.trans hresponse.symm)]
  exact hread

/-- **A configuration is read back from its own fields, and from these fields in any order and with
any of their names spelled in camel case**, the fields of its overrides included. -/
theorem readBack_respelled (hrequest : c.request = .overrides request)
    (hresponse : c.response = .overrides response) :
    ∃ fields, c.toFields = .ok fields ∧ ofFields fields = .ok c ∧
      ∀ written, Rewritten SameSetting fields written → ofFields written = .ok c := by
  refine ⟨c.fieldsWith request response, toFields_eq_ok hrequest hresponse, ?_, ?_⟩
  · exact ofFields_rewritten hrequest hresponse
      (Rewritten.refl (ownNames_fieldsWith c request response) SameSetting.same)
  · exact fun written hwritten => ofFields_rewritten hrequest hresponse hwritten

/-- Overrides that set two options. -/
def strictDescribed : Overrides := { mode := some .strict, useDescribe := .bool true }

/-- A configuration that requests set apart. -/
def looseApi : Config :=
  { mode := .loose, constPrefix := .text "api", request := .overrides strictDescribed }

/-- The fields of this configuration from last to first, in camel case. -/
def respelledLooseApi : Fields :=
  [(.text "response", .object []),
   (.text "request", .object [(.text "useDescribe", .bool true), (.text "mode", .text "strict")]),
   (.text "maxDepth", .int 100), (.text "cacheSize", .int 1000), (.text "showStats", .bool false),
   (.text "typesImportPath", .text "./types"), (.text "separateTypesFile", .bool false),
   (.text "customDateTimeFormatRegex", .null), (.text "useDescribe", .bool false),
   (.text "includeDescriptions", .bool true), (.text "stripSchemaPrefix", .null),
   (.text "suffix", .null), (.text "prefix", .text "api"), (.text "enumType", .text "zod"),
   (.text "emptyObjectBehavior", .text "loose"), (.text "defaultNullable", .bool false),
   (.text "schemaType", .text "all"), (.text "mode", .text "loose")]

theorem rewritten_strictDescribed : Rewritten (fun _ v w => w = v) strictDescribed.toFields
    [(.text "useDescribe", .bool true), (.text "mode", .text "strict")] :=
  ⟨[(.text "mode", .text "strict"), (.text "useDescribe", .bool true)],
    .cons ⟨_, rfl, .own, rfl⟩ (.cons ⟨_, rfl, .camelCase (by decide), rfl⟩ .nil), .swap _ _ _⟩

theorem rewritten_looseApi :
    Rewritten SameSetting (looseApi.fieldsWith strictDescribed {}) respelledLooseApi := by
  refine ⟨respelledLooseApi.reverse, ?_, List.reverse_perm _⟩
  iterate 16
    refine .cons ⟨_, rfl, by first | exact .own | exact .camelCase (by decide), .same _ _⟩ ?_
  exact .cons ⟨_, rfl, .own, .overrides (Or.inl rfl) rewritten_strictDescribed⟩
    (.cons ⟨_, rfl, .own, .same _ _⟩ .nil)

theorem readBack_respelled_looseApi :
    (looseApi.request = .overrides strictDescribed ∧ looseApi.response = .overrides {}) ∧
      ofFields respelledLooseApi = .ok looseApi := by
  refine ⟨⟨rfl, rfl⟩, ?_⟩
  obtain ⟨fields, hfields, -, hread⟩ := readBack_respelled (c := looseApi) rfl rfl
  cases (toFields_eq_ok rfl rfl).symm.trans hfields
  exact hread respelledLooseApi rewritten_looseApi

end Config

end SchemaForge
