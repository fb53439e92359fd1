import SchemaForge.Compile.Basic
import SchemaForge.Proofs.Compile.Scope
import SchemaForge.Proofs.Schema.Form

/-!
# The parts of a schema

What is compiled on the way when a schema is: the values under its keywords, and schemas that are
made from it, with one of its types, without what it excludes, or without properties that an earlier
branch defines. `PartOf` lists them for a schema whose visible fields are given, and `Inside` goes all
the way down.
-/

namespace SchemaForge.Compile

open Schema

/-- What a branch of a composition is compiled as: the branch without some properties, or these
properties one by one. -/
inductive BranchPart (branch : Value) : Value → Prop where
  | whole {omitted : List Scalar} {v : Value} (reduced : reduceBranch omitted branch = .ok (some v)) :
      BranchPart branch v
  | property {omitted : List Scalar} {fields properties : Fields} {name : Scalar} {v : Value}
      (reduced : reduceBranch omitted branch = .ok (some (.object fields)))
      (declared : (fields.value "properties").fieldsIfSet = .ok properties)
      (held : (name, v) ∈ properties) : BranchPart branch v

/-- The keywords whose value is a schema. -/
def schemaKeywords : List String :=
  ["items", "unevaluatedItems", "contains", "additionalProperties", "unevaluatedProperties", "if",
   "then", "else"]

/-- What is compiled on the way when a schema with the given visible fields is. -/
inductive PartOf (schema : Fields) : Value → Prop where
  | keyword {k : String} (known : k ∈ schemaKeywords) (held : (schema.value k).isObject = true) :
      PartOf schema (schema.value k)
  | place {places : List Value} {v : Value} (walked : (schema.value "prefixItems").walk = .ok places)
      (held : v ∈ places) : PartOf schema v
  | property {properties : Fields} {name : Scalar} {v : Value}
      (declared : (schema.value "properties").fieldsIfSet = .ok properties)
      (held : (name, v) ∈ properties) : PartOf schema v
  | entry {k : String} {entries : Fields} {name : Scalar} {v : Value}
      (known : k ∈ ["patternProperties", "dependencies"]) (is : schema.value k = .object entries)
      (held : (name, v) ∈ entries) : PartOf schema v
  | oneType {type : Value} (several : 1 < (nonNullTypes schema).length)
      (held : type ∈ nonNullTypes schema) :
      PartOf schema (.object ((schema.erase "nullable").put (.text "type") type))
  | excluded {v : Value} (held : schema.get? "not" = some v) : PartOf schema v
  | remainder (held : schema.has "not" = true) :
      PartOf schema (.object ((schema.erase "not").erase "nullable"))
  | branch {k : String} {value : Value} {branches : List Value} {b v : Value}
      (known : k ∈ ["allOf", "oneOf", "anyOf"]) (held : schema.get? k = some value)
      (walked : value.walk = .ok branches) (listed : b ∈ branches) (part : BranchPart b v) :
      PartOf schema v
  | target {discriminator mapping : Fields} {name : Scalar} {t : Value}
      (told : schema.value "discriminator" = .object discriminator)
      (mapped : discriminator.value "mapping" = .object mapping) (held : (name, t) ∈ mapping) :
      PartOf schema (.object [(.text "$ref", t)])

theorem PartOf.of_value {schema part : Fields} {k : String} (known : k ∈ schemaKeywords)
    (h : schema.value k = .object part) : PartOf schema (.object part) := by
  rw [← h]
  exact .keyword known (by rw [h]; rfl)

/-- What is compiled on the way, at any depth, when a value is, the value itself included. -/
inductive Inside (env : Environment) (v : Value) : Value → Prop where
  | self : Inside env v v
  | part {schema fields : Fields} {w : Value} (inside : Inside env v (.object schema))
      (visible : visibleFields env schema = .ok fields) (part : PartOf fields w) : Inside env v w

/-! ## Schemas without parts -/

/-- The keywords besides those of schemas that parts stand under. -/
def partKeywords : List String :=
  ["prefixItems", "properties", "patternProperties", "dependencies", "not", "oneOf", "anyOf",
   "discriminator"]

/-- A schema of one type at most that holds no schemas except branches of an `allOf`. -/
structure OnlyAllOf (schema : Fields) : Prop where
  oneType : (nonNullTypes schema).length ≤ 1
  schemas : ∀ k ∈ schemaKeywords, (schema.value k).isObject = false
  others : ∀ k ∈ partKeywords, schema.get? k = none

instance (schema : Fields) : Decidable (OnlyAllOf schema) :=
  decidable_of_iff ((nonNullTypes schema).length ≤ 1 ∧
      (∀ k ∈ schemaKeywords, (schema.value k).isObject = false) ∧
      ∀ k ∈ partKeywords, (schema.get? k).isNone = true)
    ⟨fun ⟨h, h', h''⟩ => ⟨h, h', by simpa using h''⟩, fun ⟨h, h', h''⟩ => ⟨h, h', by simpa using h''⟩⟩

/-- Then all parts are parts of branches. -/
theorem OnlyAllOf.part {schema : Fields} {v : Value} (h : OnlyAllOf schema) (hv : PartOf schema v) :
    ∃ value branches b, schema.get? "allOf" = some value ∧ value.walk = .ok branches ∧
      b ∈ branches ∧ BranchPart b v := by
  have hnone : ∀ k ∈ partKeywords, schema.value k = .null := fun k hk => by
    rw [Fields.value, h.others k hk]
    rfl
  cases hv with
  | keyword known held =>
    rw [h.schemas _ known] at held
    cases held
  | place walked held =>
    rw [hnone _ (by decide)] at walked
    cases walked
  | property declared held =>
    rw [hnone _ (by decide)] at declared
    cases declared
    cases held
  | entry known is held =>
    have hkeyword : ∀ k ∈ ["patternProperties", "dependencies"], k ∈ partKeywords := by decide
    rw [hnone _ (hkeyword _ known)] at is
    cases is
  | oneType several held => exact absurd several (Nat.not_lt.mpr h.oneType)
  | excluded held =>
    rw [h.others _ (by decide)] at held
    cases held
  | remainder held =>
    rw [Fields.has, h.others _ (by decide)] at held
    cases held
  | @branch k value branches b w known held walked listed part =>
    simp only [List.mem_cons, List.not_mem_nil, or_false] at known
    rcases known with rfl | rfl | rfl
    · exact ⟨value, branches, b, held, walked, listed, part⟩
    · rw [h.others _ (by decide)] at held
      cases held
    · rw [h.others _ (by decide)] at held
      cases held
  | target told mapped held =>
    rw [hnone _ (by decide)] at told
    cases told

/-! ## Branches -/

theorem reduceBranch_nil (branch : Value) : reduceBranch [] branch = .ok (some branch) := by
  cases branch <;> rfl

theorem reduceBranch_cases {omitted : List Scalar} {branch left : Value}
    (h : reduceBranch omitted branch = .ok (some left)) :
    left = branch ∨ ∃ fields reduced, branch = .object fields ∧ left = .object reduced ∧
      Fields.has fields "$ref" = false ∧ Fields.has fields "allOf" = false ∧
      withoutProperties omitted fields = .ok reduced := by
  cases branch with
  | object fields =>
    rcases reduceBranch_object h with ⟨-, hleft⟩ | ⟨hkept, reduced, hreduced, hleft⟩
    · cases hleft
      exact Or.inl rfl
    · obtain ⟨hkept, hallOf⟩ := Bool.or_eq_false_iff.mp hkept
      obtain ⟨-, href⟩ := Bool.or_eq_false_iff.mp hkept
      split at hleft
      · cases hleft
      · cases hleft
        exact Or.inr ⟨fields, reduced, rfl, rfl, href, hallOf, hreduced⟩
  | _ =>
    cases h
    exact Or.inl rfl

theorem BranchPart.self (branch : Value) : BranchPart branch branch :=
  .whole (reduceBranch_nil branch)

/-- A target of a mapping puts one of the branches in order or a reference of its own. -/
theorem mem_orderTarget {branches : List Value} {ordered ordered' : Ordered} {target : Value}
    (h : orderTarget branches ordered target = .ok ordered') {o : Option Nat × Value}
    (ho : o ∈ ordered') :
    o ∈ ordered ∨ o.2 ∈ branches ∨ o.2 = .object [(.text "$ref", target)] := by
  obtain ⟨found, hfound, h⟩ := Outcome.bind_eq_ok.mp h
  have hadded : ∀ {there : Bool} (candidate : Option Nat × Value),
      (if there then Except.ok ordered else Except.ok (ordered ++ [candidate]) :
        Except Fault Ordered) = .ok ordered' → o ∈ ordered ∨ o = candidate := by
    intro there candidate h
    split at h
    · cases h
      exact Or.inl ho
    · cases h
      simpa using ho
  cases found with
  | some hit =>
    rcases hadded (some hit.1, hit.2) h with ho | rfl
    · exact Or.inl ho
    · exact Or.inr (Or.inl (Reference.mem_of_matchingBranch hfound))
  | none =>
    rcases hadded (none, .object [(.text "$ref", target)]) h with ho | rfl
    · exact Or.inl ho
    · exact Or.inr (Or.inr rfl)

theorem mem_orderTargets {branches : List Value} : ∀ {targets : List Value}
    {ordered ordered' : Ordered}, targets.foldlM (orderTarget branches) ordered = .ok ordered' →
    ∀ o ∈ ordered', o ∈ ordered ∨ o.2 ∈ branches ∨
      ∃ t ∈ targets, o.2 = .object [(.text "$ref", t)]
  | [], _, _, h, o, ho => by
    cases h
    exact Or.inl ho
  | target :: targets, _, _, h, o, ho => by
    rw [List.foldlM_cons] at h
    obtain ⟨next, hnext, h⟩ := Outcome.bind_eq_ok.mp h
    rcases mem_orderTargets h o ho with ho | ho | ⟨t, ht, ho⟩
    · rcases mem_orderTarget hnext ho with ho | ho | ho
      · exact Or.inl ho
      · exact Or.inr (Or.inl ho)
      · exact Or.inr (Or.inr ⟨target, List.mem_cons_self, ho⟩)
    · exact Or.inr (Or.inl ho)
    · exact Or.inr (Or.inr ⟨t, List.mem_cons_of_mem _ ht, ho⟩)

/-- The branches of a union are listed, or refer to the targets of its mapping. -/
def Selectable (branches : List Value) (mapping b : Value) : Prop :=
  b ∈ branches ∨ ∃ targets name t, mapping = .object targets ∧ (name, t) ∈ targets ∧
    b = .object [(.text "$ref", t)]

/-- **In the order of a mapping stand the branches and references to the targets, nothing else.** -/
theorem mem_orderByMapping {mapping : Value} {branches ordered : List Value}
    (h : orderByMapping mapping branches = .ok ordered) {b : Value} (hb : b ∈ ordered) :
    Selectable branches mapping b := by
  obtain ⟨targets, htargets, h⟩ := Outcome.bind_eq_ok.mp h
  obtain ⟨placed, hplaced, h⟩ := Outcome.bind_eq_ok.mp h
  cases h
  rcases List.mem_append.mp hb with hb | hb
  · obtain ⟨o, ho, rfl⟩ := List.mem_map.mp hb
    rcases mem_orderTargets hplaced o ho with ho | ho | ⟨t, ht, ho⟩
    · exact absurd ho List.not_mem_nil
    · exact Or.inl ho
    · obtain ⟨f, hf, rfl⟩ := List.mem_map.mp ht
      exact Or.inr ⟨targets, f.1, f.2, Value.eq_object_of_fields htargets, hf, ho⟩
  · exact Or.inl (Reference.mem_of_leftOver hb)

end SchemaForge.Compile
