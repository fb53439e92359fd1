import SchemaForge.Command.Run
import SchemaForge.Proofs.Document.Fields
import SchemaForge.Proofs.Outcome

/-!
# Which value an option has

Fields set an option under every spelling that it has, and of several settings the last one counts.
Arguments replace the field that has the option's own name, at its place if there is one. So what
arguments say of an option is what the configuration holds unless a field after that place sets the
option once more: `configOf_decides_iff` says that this is all that can go wrong.
-/

namespace SchemaForge

namespace Config

variable {c c' : Config} {fields : Fields} {n k : String} {v : Value}

/-! ## Settings -/

/-- Whether a field sets an option, in whatever spelling. -/
def sets (n : String) : Scalar × Value → Bool
  | (.text name, _) => optionName name == n
  | _ => false

/-- The values that fields give an option, in order. -/
def settings (n : String) (fields : Fields) : List Value := (fields.filter (sets n)).map (·.2)

/-- The values that fields give an option after the first field with the option's own name. -/
def laterSettings (n : String) : Fields → List Value
  | [] => []
  | f :: fields => if f.1 = .text n then settings n fields else laterSettings n fields

theorem settings_cons (f : Scalar × Value) (fields : Fields) :
    settings n (f :: fields) = if sets n f then f.2 :: settings n fields else settings n fields := by
  unfold settings
  rw [List.filter_cons]
  split <;> rfl

/-! ## Reading a configuration -/

/-- What is chosen is the word of the choice. -/
theorem choose_eq_ok {α : Type} [Choice α] {m : α} (h : choose n v = .ok m) :
    v = .text (Choice.word m) := by
  unfold choose at h
  split at h
  · rename_i m' hm
    cases h
    simpa using List.find?_some hm
  · cases h

/-- An option is found by its name, in either spelling. -/
theorem optionOf_eq_ok {name : Scalar} (h : optionOf name = .ok k) :
    ∃ text, name = .text text ∧ optionName text = k := by
  unfold optionOf at h
  split at h
  · cases h
    exact ⟨_, rfl, rfl⟩
  · cases h

/-- Setting an option puts its value in place, if it is one of the plain ones. -/
theorem options_setOption (h : c.setOption k v = .ok c') :
    c'.options = if c.options.has k then c.options.put (.text k) v else c.options := by
  unfold setOption at h
  split at h
  iterate 4
    obtain ⟨m, hm, h⟩ := Outcome.bind_eq_ok.mp h
    cases h
    rw [choose_eq_ok hm]
    rfl
  iterate 2
    obtain ⟨m, hm, h⟩ := Outcome.bind_eq_ok.mp h
    cases h
    rfl
  iterate 12
    cases h
    rfl
  cases h
  rw [if_neg]
  simp only [Fields.has_iff_mem_names, Fields.names, options, List.map_cons, List.map_nil,
    List.mem_cons, List.not_mem_nil, Scalar.text.injEq, or_false, not_or]
  exact ⟨‹_›, ‹_›, ‹_›, ‹_›, ‹_›, ‹_›, ‹_›, ‹_›, ‹_›, ‹_›, ‹_›, ‹_›, ‹_›, ‹_›, ‹_›, ‹_›⟩

theorem names_options (c c' : Config) : c.options.names = c'.options.names := rfl

/-- **The last setting of an option is the value it has.** -/
theorem get?_options_foldlM : ∀ {fields : Fields} {c c' : Config},
    fields.foldlM (fun c f => do Config.setOption c (← optionOf f.1) f.2) c = .ok c' →
    c.options.has n = true →
    c'.options.get? n = some ((settings n fields).getLast?.getD (c.options.value n))
  | [], c, c', h, hn => by
    cases h
    exact Fields.get?_of_has hn
  | (name, v) :: fields, c, c', h, hn => by
    rw [List.foldlM_cons] at h
    obtain ⟨next, hnext, h⟩ := Outcome.bind_eq_ok.mp h
    obtain ⟨k, hk, hnext⟩ := Outcome.bind_eq_ok.mp hnext
    have hnames : next.options.has n = true := by
      rw [Fields.has_iff_mem_names, names_options next c, ← Fields.has_iff_mem_names]
      exact hn
    rw [get?_options_foldlM h hnames, settings_cons]
    obtain ⟨text, rfl, rfl⟩ := optionOf_eq_ok hk
    have hoptions := options_setOption hnext
    by_cases hkn : optionName text = n
    · rw [hkn, if_pos hn] at hoptions
      rw [if_pos (by simpa [sets] using hkn), hoptions, Fields.value_put_self, List.getLast?_cons,
        Option.getD_some]
    · have hvalue : next.options.value n = c.options.value n := by
        rw [hoptions]
        split
        · exact Fields.value_put_of_ne hkn
        · rfl
      rw [if_neg (by simpa [sets] using hkn), hvalue]

/-- **The last setting of an option counts**, and its default if there is none. -/
theorem get?_options_ofFields (h : ofFields fields = .ok c) (hn : c.options.has n = true) :
    c.options.get? n =
      some ((settings n fields).getLast?.getD (({} : Config).options.value n)) := by
  refine get?_options_foldlM h ?_
  rwa [Fields.has_iff_mem_names, names_options _ c, ← Fields.has_iff_mem_names]

/-! ## Setting a field -/

/-- A field with the option's own name stays where it is, and so do the settings after it. -/
theorem getLast?_settings_put (hn : optionName n = n) (v : Value) : ∀ fields : Fields,
    (settings n (fields.put (.text n) v)).getLast? =
      some ((laterSettings n fields).getLast?.getD v)
  | [] => by simp [Fields.put, settings, sets, laterSettings, hn]
  | f :: fields => by
    rw [Fields.put_cons, laterSettings]
    by_cases hf : f.1 = .text n
    · have hsets : sets n (f.1, v) = true := by simp [sets, hf, hn]
      rw [if_pos (by simpa using hf), if_pos hf, settings_cons, if_pos hsets, List.getLast?_cons]
    · rw [if_neg (by simpa using hf), if_neg hf, settings_cons]
      split
      · rw [List.getLast?_cons, getLast?_settings_put hn v fields, Option.getD_some]
      · exact getLast?_settings_put hn v fields

/-- Putting another option leaves the settings of this one. -/
theorem settings_put_of_ne (hk : optionName k = k) (hkn : k ≠ n) (v : Value) : ∀ fields : Fields,
    settings n (fields.put (.text k) v) = settings n fields
  | [] => by simp [Fields.put, settings, sets, hk, hkn]
  | f :: fields => by
    rw [Fields.put_cons]
    by_cases hf : f.1 = .text k
    · have hsets : ∀ w, ¬ sets n (f.1, w) = true := by simp [sets, hf, hk, hkn]
      rw [if_pos (by simpa using hf), settings_cons, settings_cons, if_neg (hsets v),
        if_neg (hsets f.2)]
    · rw [if_neg (by simpa using hf), settings_cons, settings_cons,
        settings_put_of_ne hk hkn v fields]

theorem laterSettings_put_of_ne (hk : optionName k = k) (hkn : k ≠ n) (v : Value) :
    ∀ fields : Fields, laterSettings n (fields.put (.text k) v) = laterSettings n fields
  | [] => by simp [Fields.put, laterSettings, settings]
  | f :: fields => by
    rw [Fields.put_cons]
    by_cases hf : f.1 = .text k
    · rw [if_pos (by simpa using hf)]
      simp [laterSettings, hf, hkn]
    · rw [if_neg (by simpa using hf), laterSettings, laterSettings,
        settings_put_of_ne hk hkn v fields, laterSettings_put_of_ne hk hkn v fields]

/-- An option that is set once has no later settings. -/
theorem laterSettings_of_once (hn : optionName n = n) : ∀ {fields : Fields},
    (settings n fields).length ≤ 1 → laterSettings n fields = []
  | [], _ => rfl
  | f :: fields, h => by
    rw [laterSettings]
    rw [settings_cons] at h
    by_cases hf : f.1 = .text n
    · have hsets : sets n (f.1, f.2) = true := by simp [sets, hf, hn]
      rw [if_pos hsets, List.length_cons] at h
      rw [if_pos hf]
      exact List.length_eq_zero_iff.mp (by omega)
    · rw [if_neg hf]
      refine laterSettings_of_once hn ?_
      split at h
      · rw [List.length_cons] at h
        omega
      · exact h

end Config

namespace Command

open Config

variable {files : FileTree} {a : Arguments} {c : Config} {fields : Fields} {n : String} {v : Value}

/-! ## Setting several fields -/

/-- Names of options, each its own spelling and none of them twice. -/
structure Proper (names : List String) : Prop where
  own : ∀ n ∈ names, optionName n = n
  nodup : names.Nodup

theorem Proper.tail {names : List String} (h : Proper (n :: names)) : Proper names :=
  ⟨fun m hm => h.own m (List.mem_cons_of_mem _ hm), (List.nodup_cons.mp h.nodup).2⟩

/-- Flags for other options leave the settings of this one. -/
theorem settings_foldl_setIf {given : List (String × Option Value)}
    (hgiven : Proper (given.map (·.1))) (hn : n ∉ given.map (·.1)) (fields : Fields) :
    settings n (given.foldl (fun fields f => setIf f.1 f.2 fields) fields) = settings n fields := by
  induction given generalizing fields with
  | nil => rfl
  | cons f given ih =>
    rw [List.map_cons, List.mem_cons, not_or] at hn
    rw [List.foldl_cons, ih hgiven.tail hn.2]
    cases f.2 with
    | none => rfl
    | some w => exact settings_put_of_ne (hgiven.own f.1 List.mem_cons_self) (Ne.symm hn.1) w fields

/-- What is given for an option is its last setting, but for the settings after its own name. -/
theorem getLast?_settings_foldl_setIf {given : List (String × Option Value)}
    (hgiven : Proper (given.map (·.1))) (hmem : (n, some v) ∈ given) (fields : Fields) :
    (settings n (given.foldl (fun fields f => setIf f.1 f.2 fields) fields)).getLast? =
      some ((laterSettings n fields).getLast?.getD v) := by
  induction given generalizing fields with
  | nil => exact absurd hmem List.not_mem_nil
  | cons f given ih =>
    rw [List.foldl_cons]
    rcases List.mem_cons.mp hmem with rfl | hmem
    · rw [settings_foldl_setIf hgiven.tail (List.nodup_cons.mp hgiven.nodup).1]
      exact getLast?_settings_put (hgiven.own n List.mem_cons_self) v fields
    · have hne : f.1 ≠ n := by
        rintro rfl
        exact (List.nodup_cons.mp hgiven.nodup).1 (List.mem_map.mpr ⟨(f.1, some v), hmem, rfl⟩)
      rw [ih hgiven.tail hmem]
      cases f.2 with
      | none => rfl
      | some w =>
        rw [setIf, laterSettings_put_of_ne (hgiven.own f.1 List.mem_cons_self) hne w fields]

theorem proper_settings (a : Arguments) : Proper (a.settings.map (·.1)) where
  own := by
    simp only [Arguments.settings, List.map_cons, List.map_nil, List.forall_mem_cons]
    decide
  nodup := by simp [Arguments.settings]

/-! ## What arguments decide -/

/-- In every option that arguments give, the configuration holds what they say. -/
structure Arguments.Decides (a : Arguments) (c : Config) : Prop where
  mode : ∀ m, a.mode = some m → c.mode = m
  visibility : ∀ m, a.visibility = some m → c.visibility = m
  emptyObject : ∀ m, a.emptyObject = some m → c.emptyObject = m
  enumStyle : ∀ m, a.enumStyle = some m → c.enumStyle = m
  constPrefix : ∀ s, a.constPrefix = some s → c.constPrefix = .text s
  constSuffix : ∀ s, a.constSuffix = some s → c.constSuffix = .text s
  stripped : a.stripped ≠ [] → c.stripped = .list (a.stripped.map Value.text)
  defaultNullable : a.defaultNullable = true → c.defaultNullable = .bool true
  useDescribe : a.useDescribe = true → c.useDescribe = .bool true
  noDescriptions : a.noDescriptions = true → c.includeDescriptions = .bool false
  separateTypes : a.separateTypes = true → c.separateTypes = .bool true
  stats : a.stats = true → c.showStats = .bool true

/-- No option that arguments give is set to something else after the field with its own name. -/
def Arguments.Unshadowed (a : Arguments) (fields : Fields) : Prop :=
  ∀ n v, (n, some v) ∈ a.settings → ∀ w, (laterSettings n fields).getLast? = some w → w = v

theorem forall_choiceValue {α : Type} [Choice α] (hword : Function.Injective (Choice.word (α := α)))
    {choice : Option α} {m : α} :
    (∀ v, choiceValue choice = some v → Value.text (Choice.word m) = v) ↔
      ∀ m', choice = some m' → m = m' := by
  cases choice with
  | none => simp [choiceValue]
  | some m' => simp [choiceValue, hword.eq_iff]

theorem forall_flagValue {given value : Bool} {w : Value} :
    (∀ v, flagValue given value = some v → w = v) ↔ (given = true → w = .bool value) := by
  cases given <;> simp [flagValue]

theorem forall_text {text : Option String} {w : Value} :
    (∀ v, text.map Value.text = some v → w = v) ↔ ∀ s, text = some s → w = .text s := by
  cases text <;> simp

theorem forall_stripped {stripped : List String} {w : Value} :
    (∀ v, (if stripped.isEmpty then none else some (Value.list (stripped.map Value.text))) = some v →
      w = v) ↔ (stripped ≠ [] → w = .list (stripped.map Value.text)) := by
  cases stripped <;> simp

theorem mode_injective : Function.Injective (Choice.word (α := ObjectMode)) := by
  intro m m'
  cases m <;> cases m' <;> decide

theorem visibility_injective : Function.Injective (Choice.word (α := Visibility)) := by
  intro m m'
  cases m <;> cases m' <;> decide

theorem emptyObject_injective : Function.Injective (Choice.word (α := EmptyObject)) := by
  intro m m'
  cases m <;> cases m' <;> decide

theorem enumStyle_injective : Function.Injective (Choice.word (α := EnumStyle)) := by
  intro m m'
  cases m <;> cases m' <;> decide

/-- Flags decide if each option that is given has its value in the end. -/
theorem decides_iff :
    a.Decides c ↔ ∀ n v, (n, some v) ∈ a.settings → c.options.value n = v := by
  have hsettings : (∀ n v, (n, some v) ∈ a.settings → c.options.value n = v) ↔
      ∀ s ∈ a.settings, ∀ v, s.2 = some v → c.options.value s.1 = v :=
    ⟨fun h s hs v hv => h s.1 v (hv ▸ hs), fun h n v hs => h (n, some v) hs v rfl⟩
  rw [hsettings]
  simp only [Arguments.settings, List.forall_mem_cons, List.not_mem_nil, false_imp_iff,
    implies_true, and_true]
  constructor
  · intro h
    exact ⟨(forall_choiceValue mode_injective).mpr h.mode,
      (forall_choiceValue visibility_injective).mpr h.visibility,
      (forall_choiceValue emptyObject_injective).mpr h.emptyObject,
      (forall_choiceValue enumStyle_injective).mpr h.enumStyle, forall_text.mpr h.constPrefix,
      forall_text.mpr h.constSuffix, forall_stripped.mpr h.stripped,
      forall_flagValue.mpr h.defaultNullable, forall_flagValue.mpr h.useDescribe,
      forall_flagValue.mpr h.noDescriptions, forall_flagValue.mpr h.separateTypes,
      forall_flagValue.mpr h.stats⟩
  · rintro ⟨hmode, hvisibility, hemptyObject, henumStyle, hconstPrefix, hconstSuffix, hstripped,
      hdefaultNullable, huseDescribe, hnoDescriptions, hseparateTypes, hstats⟩
    exact {
      mode := (forall_choiceValue mode_injective).mp hmode
      visibility := (forall_choiceValue visibility_injective).mp hvisibility
      emptyObject := (forall_choiceValue emptyObject_injective).mp hemptyObject
      enumStyle := (forall_choiceValue enumStyle_injective).mp henumStyle
      constPrefix := forall_text.mp hconstPrefix
      constSuffix := forall_text.mp hconstSuffix
      stripped := forall_stripped.mp hstripped
      defaultNullable := forall_flagValue.mp hdefaultNullable
      useDescribe := forall_flagValue.mp huseDescribe
      noDescriptions := forall_flagValue.mp hnoDescriptions
      separateTypes := forall_flagValue.mp hseparateTypes
      stats := forall_flagValue.mp hstats }

theorem has_options_settings (a : Arguments) (c : Config) :
    ∀ n ∈ a.settings.map (·.1), c.options.has n = true := by
  have hnames : c.options.names = ({} : Config).options.names := rfl
  simp only [Fields.has_iff_mem_names, hnames]
  have hsettings : a.settings.map (·.1) = ["mode", "schema_type", "empty_object_behavior",
    "enum_type", "prefix", "suffix", "strip_schema_prefix", "default_nullable", "use_describe",
    "include_descriptions", "separate_types_file", "show_stats"] := rfl
  rw [hsettings]
  decide

/-- What a configuration holds in an option that arguments give. -/
theorem value_configOf (hfile : fileFields files a = .ok fields) (h : configOf files a = .ok c)
    (hmem : (n, some v) ∈ a.settings) :
    c.options.value n = (laterSettings n fields).getLast?.getD v := by
  rw [configOf, hfile] at h
  have hn : c.options.has n = true :=
    has_options_settings a c n (List.mem_map_of_mem hmem)
  rw [Fields.value_of_get? (get?_options_ofFields h hn), Arguments.override,
    getLast?_settings_foldl_setIf (proper_settings a) hmem fields, Option.getD_some]

/-- A file that names an option once, in whatever spelling, leaves it to the arguments. -/
theorem unshadowed_of_once
    (h : ∀ n v, (n, some v) ∈ a.settings → (settings n fields).length ≤ 1) :
    a.Unshadowed fields := by
  intro n v hmem w hw
  rw [laterSettings_of_once ((proper_settings a).own n (List.mem_map_of_mem hmem)) (h n v hmem)] at hw
  cases hw

/-- A working folder with one configuration. -/
def configured (text : String) : FileTree := { files := [(["zod.json"], text)] }

/-- Arguments that name this configuration and ask for a mode and a visibility. -/
def forResponses : Arguments :=
  { source := "spec.json", target := "out.ts", config := some "zod.json", mode := some .strict
    visibility := some .response }

/-- A visibility in camel case only. -/
def inCamelCase : FileTree :=
  configured "\x7b\"mode\": \"loose\", \"schemaType\": \"request\"\x7d"

/-- A visibility in both spellings. -/
def inBothSpellings : FileTree :=
  configured "\x7b\"schema_type\": \"all\", \"schemaType\": \"request\"\x7d"

end Command

end SchemaForge
