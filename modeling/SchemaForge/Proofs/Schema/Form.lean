import SchemaForge.Proofs.Document.Fields
import SchemaForge.Proofs.Outcome
import SchemaForge.Schema.Form

/-!
# What the form of a schema says

`FormOf schema form` collects what classification found in the schema when it gave it a form, so
that later statements need not go through the order of the tests again.
-/

namespace SchemaForge.Schema

/-- What a schema of a form holds. -/
inductive FormOf (schema : Fields) : Form → Prop where
  | severalTypes (several : 1 < (nonNullTypes schema).length) :
      FormOf schema (.severalTypes (nonNullTypes schema))
  | reference {ref : String} (held : schema.get? "$ref" = some (.text ref)) :
      FormOf schema (.reference ref (Naming.targetName ref))
  | constant {value : Value} (held : schema.get? "const" = some value) :
      FormOf schema (.constant value)
  | enum {value : Value} {values : List Value} (held : schema.get? "enum" = some value)
      (walked : value.walk = .ok values) : FormOf schema (.enum values)
  | allOf {value : Value} {branches : List Value} (held : schema.get? "allOf" = some value)
      (walked : value.walk = .ok branches) : FormOf schema (.allOf branches)
  | union {kind : UnionKind} {value : Value} {branches : List Value} {discriminator : Fields}
      (held : schema.get? kind.keyword = some value) (walked : value.walk = .ok branches)
      (told : (schema.value "discriminator").fieldsIfSet = .ok discriminator) :
      FormOf schema (.union kind branches (discriminator.value "propertyName")
        (discriminator.value "mapping"))
  | negation {excluded : Value} (held : schema.get? "not" = some excluded) :
      FormOf schema (.negation excluded)
  | ofType : FormOf schema (formOfType schema)

variable {schema : Fields} {form : Form}

theorem formOf_formOfUnion (kind : UnionKind) {value : Value}
    (held : schema.get? kind.keyword = some value)
    (h : formOfUnion schema kind value = .ok form) : FormOf schema form := by
  obtain ⟨branches, hb, h⟩ := Outcome.bind_eq_ok.mp h
  obtain ⟨discriminator, hd, h⟩ := Outcome.bind_eq_ok.mp h
  cases h
  exact .union held hb hd

/-- **A schema holds what its form says.** -/
theorem formOf_of_classify (h : classify schema = .ok form) : FormOf schema form := by
  unfold classify at h
  split at h
  · rename_i hseveral
    cases h
    exact .severalTypes hseveral
  split at h
  · rename_i href
    split at h
    · cases h
      exact .reference href
    · cases h
  split at h
  · rename_i hconst
    cases h
    exact .constant hconst
  split at h
  · rename_i henum
    obtain ⟨values, hw, rfl⟩ := Outcome.map_eq_ok.mp h
    exact .enum henum hw
  split at h
  · rename_i hallOf
    obtain ⟨branches, hw, rfl⟩ := Outcome.map_eq_ok.mp h
    exact .allOf hallOf hw
  split at h
  · rename_i honeOf
    exact formOf_formOfUnion .oneOf honeOf h
  split at h
  · rename_i hanyOf
    exact formOf_formOfUnion .anyOf hanyOf h
  split at h
  · rename_i hnot
    cases h
    exact .negation hnot
  · cases h
    exact .ofType

/-- Only a schema of a known type has a form by its type. -/
theorem formOfType_cases (schema : Fields) :
    formOfType schema = .string ∨ (∃ b, formOfType schema = .number b) ∨
      formOfType schema = .boolean ∨ formOfType schema = .array ∨
      (∃ c, formOfType schema = .object c) ∨ formOfType schema = .unknown := by
  unfold formOfType
  dsimp only
  split <;> simp

/-- A schema is a reference by what it holds, never by its type. -/
theorem get?_of_classify_reference {ref name : String}
    (h : classify schema = .ok (.reference ref name)) : schema.get? "$ref" = some (.text ref) := by
  have hform := formOf_of_classify h
  generalize hf : Form.reference ref name = form at hform
  cases hform with
  | reference held =>
    cases hf
    exact held
  | ofType => rcases formOfType_cases schema with h | ⟨_, h⟩ | h | h | ⟨_, h⟩ | h <;> simp [h] at hf
  | _ => cases hf

/-- A schema is an `allOf` composition by the branches it holds, never by its type. -/
theorem walk_of_classify_allOf {branches : List Value} (h : classify schema = .ok (.allOf branches)) :
    ∃ value, schema.get? "allOf" = some value ∧ value.walk = .ok branches := by
  have hform := formOf_of_classify h
  generalize hf : Form.allOf branches = form at hform
  cases hform with
  | allOf held walked =>
    cases hf
    exact ⟨_, held, walked⟩
  | ofType => rcases formOfType_cases schema with h | ⟨_, h⟩ | h | h | ⟨_, h⟩ | h <;> simp [h] at hf
  | _ => cases hf

/-- What it is walked through by are its branches. -/
theorem walk_value_allOf {branches : List Value} (h : classify schema = .ok (.allOf branches)) :
    (schema.value "allOf").walk = .ok branches := by
  obtain ⟨value, held, walked⟩ := walk_of_classify_allOf h
  rw [Fields.value_of_get? held, walked]

/-- A schema of several types has them by its types other than null. -/
theorem eq_of_classify_severalTypes {types : List Value}
    (h : classify schema = .ok (.severalTypes types)) : types = nonNullTypes schema := by
  have hform := formOf_of_classify h
  generalize hf : Form.severalTypes types = form at hform
  cases hform with
  | severalTypes several =>
    cases hf
    rfl
  | ofType => rcases formOfType_cases schema with h | ⟨_, h⟩ | h | h | ⟨_, h⟩ | h <;> simp [h] at hf
  | _ => cases hf

/-- A schema that holds a reference is one, or has several types. -/
theorem classify_of_ref (held : schema.has "$ref" = true) (h : classify schema = .ok form) :
    (∃ types, form = .severalTypes types) ∨ ∃ ref, form = .reference ref (Naming.targetName ref) := by
  unfold classify at h
  rw [Fields.get?_of_has held] at h
  split at h
  · cases h
    exact Or.inl ⟨_, rfl⟩
  · dsimp only at h
    split at h
    · cases h
      exact Or.inr ⟨_, rfl⟩
    · cases h

/-- So a composition holds none. -/
theorem has_ref_of_classify_allOf {branches : List Value}
    (h : classify schema = .ok (.allOf branches)) : schema.has "$ref" = false := by
  by_contra href
  rcases classify_of_ref (by simpa using href) h with ⟨_, hform⟩ | ⟨_, hform⟩ <;> cases hform

/-! ## Compositions -/

/-- Compositions of branches. -/
def Form.isComposition : Form → Bool
  | .allOf _ => true
  | .union _ _ _ _ => true
  | _ => false

theorem isComposition_formOfType (schema : Fields) : (formOfType schema).isComposition = false := by
  rcases formOfType_cases schema with h | ⟨_, h⟩ | h | h | ⟨_, h⟩ | h
  all_goals
    rw [h]
    rfl

/-- A schema without any of the forms that are tried before compositions. -/
structure Unsettled (schema : Fields) : Prop where
  single : ¬ 1 < (nonNullTypes schema).length
  ref : schema.get? "$ref" = none
  const : schema.get? "const" = none
  enum : schema.get? "enum" = none

/-- What a composition holds: its branches, under the first of the keywords of compositions. -/
inductive CompositionOf (schema : Fields) : Form → Prop where
  | allOf {value : Value} {branches : List Value} (held : schema.get? "allOf" = some value)
      (walked : value.walk = .ok branches) : CompositionOf schema (.allOf branches)
  | oneOf {value : Value} {form : Form} (allOf : schema.get? "allOf" = none)
      (held : schema.get? "oneOf" = some value) (formed : formOfUnion schema .oneOf value = .ok form) :
      CompositionOf schema form
  | anyOf {value : Value} {form : Form} (allOf : schema.get? "allOf" = none)
      (oneOf : schema.get? "oneOf" = none) (held : schema.get? "anyOf" = some value)
      (formed : formOfUnion schema .anyOf value = .ok form) : CompositionOf schema form

theorem compositionOf_of_classify (h : classify schema = .ok form)
    (hcomposed : form.isComposition = true) : Unsettled schema ∧ CompositionOf schema form := by
  unfold classify at h
  split at h
  · cases h
    cases hcomposed
  rename_i hsingle
  split at h
  · split at h
    · cases h
      cases hcomposed
    · cases h
  rename_i href
  split at h
  · cases h
    cases hcomposed
  rename_i hconst
  split at h
  · obtain ⟨values, -, rfl⟩ := Outcome.map_eq_ok.mp h
    cases hcomposed
  rename_i henum
  have hunsettled : Unsettled schema := ⟨hsingle, Option.eq_none_iff_forall_ne_some.mpr href,
    Option.eq_none_iff_forall_ne_some.mpr hconst, Option.eq_none_iff_forall_ne_some.mpr henum⟩
  split at h
  · rename_i hallOf
    obtain ⟨branches, hwalk, rfl⟩ := Outcome.map_eq_ok.mp h
    exact ⟨hunsettled, .allOf hallOf hwalk⟩
  rename_i hallOf
  replace hallOf := Option.eq_none_iff_forall_ne_some.mpr hallOf
  split at h
  · rename_i honeOf
    exact ⟨hunsettled, .oneOf hallOf honeOf h⟩
  rename_i honeOf
  replace honeOf := Option.eq_none_iff_forall_ne_some.mpr honeOf
  split at h
  · rename_i hanyOf
    exact ⟨hunsettled, .anyOf hallOf honeOf hanyOf h⟩
  -- what is left is no composition
  split at h
  · cases h
    cases hcomposed
  · cases h
    rw [isComposition_formOfType] at hcomposed
    cases hcomposed

theorem Unsettled.classify_eq (h : Unsettled schema) (hcomposition : CompositionOf schema form) :
    classify schema = .ok form := by
  unfold classify
  rw [if_neg h.single, h.ref, h.const, h.enum]
  cases hcomposition with
  | allOf held walked =>
    rw [held]
    dsimp only
    rw [walked]
    rfl
  | oneOf allOf held formed =>
    rw [allOf, held]
    exact formed
  | anyOf allOf oneOf held formed =>
    rw [allOf, oneOf, held]
    exact formed

end SchemaForge.Schema
