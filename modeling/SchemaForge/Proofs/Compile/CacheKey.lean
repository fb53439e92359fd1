import Mathlib.Data.List.Nodup
import SchemaForge.Compile.Basic
import SchemaForge.Proofs.Document.JsonText

/-!
# What a key of the cache says

The key of a schema in the cache is a JSON text, and such a text can be cut in one way only. So two
schemas with one key have the same canonical text and were compiled for the same place with the same
options, as far as the key names them. A key that holds the name of a keyword is never used, so no
schema with one of these keywords is ever looked up.
-/

namespace SchemaForge.Compile

open Json

variable {env env' : Environment} {schema schema' : Fields} {top top' branch branch' : Bool}
  {key : String}

/-! ## Texts of options -/

theorem boolText_injective {a b : Bool} (h : boolText a = boolText b) : a = b := by
  revert h
  cases a <;> cases b <;> decide

theorem visibilityText_injective {a b : Visibility}
    (h : quote true (Choice.word a) = quote true (Choice.word b)) : a = b := by
  revert h
  cases a <;> cases b <;> decide

theorem modeText_injective {a b : ObjectMode}
    (h : quote true (Choice.word a) = quote true (Choice.word b)) : a = b := by
  revert h
  cases a <;> cases b <;> decide

/-! ## Keys -/

/-- The fields that a key is the text of. -/
def keyFields (env : Environment) (schema : Fields) (top branch : Bool) : Fields :=
  [(.text "schema", .object schema),
   (.text "type", .text (Choice.word env.context.visibility)),
   (.text "mode", .text (Choice.word env.context.mode)),
   (.text "top", .bool top),
   (.text "suppress", .bool branch),
   (.text "describe", env.context.useDescribe),
   (.text "descriptions", env.context.includeDescriptions)]

theorem cacheKey_eq :
    cacheKey env schema top branch = write canonical (.object (keyFields env schema top branch)) := rfl

/-- Different fields of a key have different names. -/
theorem eq_of_mem_keyFields {k : String} {v w : Value}
    (hv : (.text k, v) ∈ keyFields env schema top branch)
    (hw : (.text k, w) ∈ keyFields env schema top branch) : v = w := by
  have hnodup : ((keyFields env schema top branch).map (·.1)).Nodup := by
    simp [keyFields]
  exact congrArg Prod.snd (List.inj_on_of_nodup_map hnodup hv hw rfl)

/-- What one key says about all schemas that have it. -/
structure SameKey (env env' : Environment) (schema schema' : Fields) (top top' branch branch' : Bool) :
    Prop where
  text : ∃ t, write canonical (.object schema) = .ok t ∧ write canonical (.object schema') = .ok t
  visibility : env.context.visibility = env'.context.visibility
  mode : env.context.mode = env'.context.mode
  top : top = top'
  branch : branch = branch'
  describe : write canonical env.context.useDescribe = write canonical env'.context.useDescribe
  descriptions :
    write canonical env.context.includeDescriptions = write canonical env'.context.includeDescriptions

/-- **One key stands for one canonical text, one place and one set of options.** -/
theorem sameKey_of_cacheKey (h : cacheKey env schema top branch = .ok key)
    (h' : cacheKey env' schema' top' branch' = .ok key) :
    SameKey env env' schema schema' top top' branch branch' := by
  have hfield : ∀ k, isWord k = true → (keyFields env schema top branch).has k = true →
      (keyFields env' schema' top' branch').has k = true →
      ∃ part, write canonical ((keyFields env schema top branch).value k) = .ok part ∧
        write canonical ((keyFields env' schema' top' branch').value k) = .ok part := by
    intro k hk hv hv'
    obtain ⟨w, part, hw, hpart, hpart'⟩ :=
      exists_field_of_write h h' hk (Fields.mem_of_get? (Fields.get?_of_has hv))
    rw [eq_of_mem_keyFields hw (Fields.mem_of_get? (Fields.get?_of_has hv'))] at hpart'
    exact ⟨part, hpart, hpart'⟩
  obtain ⟨t, ht, ht'⟩ := hfield "schema" (by decide) rfl rfl
  obtain ⟨visibility, hv, hv'⟩ := hfield "type" (by decide) rfl rfl
  obtain ⟨mode, hm, hm'⟩ := hfield "mode" (by decide) rfl rfl
  obtain ⟨place, hp, hp'⟩ := hfield "top" (by decide) rfl rfl
  obtain ⟨suppressed, hs, hs'⟩ := hfield "suppress" (by decide) rfl rfl
  obtain ⟨describe, hd, hd'⟩ := hfield "describe" (by decide) rfl rfl
  obtain ⟨descriptions, he, he'⟩ := hfield "descriptions" (by decide) rfl rfl
  exact {
    text := ⟨t, ht, ht'⟩
    visibility := visibilityText_injective ((Except.ok.inj hv).trans (Except.ok.inj hv').symm)
    mode := modeText_injective ((Except.ok.inj hm).trans (Except.ok.inj hm').symm)
    top := boolText_injective ((Except.ok.inj hp).trans (Except.ok.inj hp').symm)
    branch := boolText_injective ((Except.ok.inj hs).trans (Except.ok.inj hs').symm)
    describe := hd.trans hd'.symm
    descriptions := he.trans he'.symm }

/-- Schemas with one canonical text have the same keywords. -/
theorem has_of_write {t k : String} (h : write canonical (.object schema) = .ok t)
    (h' : write canonical (.object schema') = .ok t) (hk : isWord k = true)
    (hhas : schema.has k = true) : schema'.has k = true := by
  obtain ⟨v', -, hv', -, -⟩ :=
    exists_field_of_write h h' hk (Fields.mem_of_get? (Fields.get?_of_has hhas))
  exact Fields.has_iff_mem_names.mpr (List.mem_map_of_mem hv')

/-- **A key names the keywords of its schema, so it is not used if one of them keeps schemas out of
the cache.** -/
theorem namesUncached_of_has {k : String} (h : cacheKey env schema top branch = .ok key)
    (hk : k ∈ uncachedKeywords) (hhas : schema.has k = true) : namesUncached key = true := by
  have hschema : (.text "schema", .object schema) ∈ keyFields env schema top branch :=
    List.mem_cons_self
  obtain ⟨t, ht, -, hinside⟩ := infix_of_write h hschema
  obtain ⟨-, -, hname, -⟩ := infix_of_write ht (Fields.mem_of_get? (Fields.get?_of_has hhas))
  exact List.any_eq_true.mpr ⟨k, hk, contains_of_infix (hname.trans hinside)⟩

end SchemaForge.Compile
