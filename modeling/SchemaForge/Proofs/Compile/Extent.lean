import SchemaForge.Proofs.Compile.Filtering

/-!
# How far down a schema goes

Compilation does not only go down in a schema. It also compiles copies of the schema with one of its
types or without what it excludes, branches that lost properties, and references that a mapping names.
All of these have a smaller `extent` than the schema (`extent_part_lt`), so that the extent bounds how
deep the schemas are nested that are compiled inside each other.

The extent of a schema is the number of its nodes, but for the values of two fields. Filtering writes
the required entries as a list whatever they were before, and a reference of its own has a target of
any size. Nothing is ever compiled in either, so they do not count unless they are objects; then they
may be the definition of a property or the schema for a pattern with such a name.
-/

namespace SchemaForge

/-- A field whose value counts for nothing. -/
def isIdle (name : Scalar) (v : Value) : Bool :=
  (name == .text "required" || name == .text "$ref") && !v.isObject

mutual

/-- The number of nodes of a document, except idle ones and those below them. -/
def Value.extent : Value → Nat
  | .scalar _ => 1
  | .list items => 1 + Value.extentAll items
  | .object fields => 1 + Fields.extent fields

def Value.extentAll : List Value → Nat
  | [] => 0
  | v :: vs => v.extent + Value.extentAll vs

def Fields.extent : List (Scalar × Value) → Nat
  | [] => 0
  | (name, v) :: fields => (if isIdle name v then 0 else v.extent) + Fields.extent fields

end

/-- What one field adds. -/
def fieldExtent (name : Scalar) (v : Value) : Nat := if isIdle name v then 0 else v.extent

theorem Fields.extent_cons (name : Scalar) (v : Value) (fields : Fields) :
    Fields.extent ((name, v) :: fields) = fieldExtent name v + Fields.extent fields := by
  rw [Fields.extent, fieldExtent]

theorem fieldExtent_le (name : Scalar) (v : Value) : fieldExtent name v ≤ v.extent := by
  unfold fieldExtent
  split <;> omega

theorem fieldExtent_of_object {name : Scalar} {v : Value} (h : v.isObject = true) :
    fieldExtent name v = v.extent := by
  simp [fieldExtent, isIdle, h]

/-- A reference counts no more than its target does under any name. -/
theorem fieldExtent_ref_le (name : Scalar) (v : Value) :
    fieldExtent (.text "$ref") v ≤ fieldExtent name v := by
  cases hobject : v.isObject with
  | true => rw [fieldExtent_of_object hobject, fieldExtent_of_object hobject]
  | false => simp [fieldExtent, isIdle, hobject]

theorem fieldExtent_text {k : String} (hk : k ∉ ["required", "$ref"]) (v : Value) :
    fieldExtent (.text k) v = v.extent := by
  simp only [List.mem_cons, List.not_mem_nil, or_false, not_or] at hk
  simp [fieldExtent, isIdle, hk.1, hk.2]

theorem Value.one_le_extent (v : Value) : 1 ≤ v.extent := by
  cases v <;> simp only [Value.extent] <;> omega

mutual

theorem Value.extent_le_weight : ∀ v : Value, v.extent ≤ v.weight
  | .scalar _ => Nat.le_refl 1
  | .list items => by
    rw [Value.extent, Value.weight]
    exact Nat.add_le_add_left (Value.extentAll_le_weightAll items) 1
  | .object fields => by
    rw [Value.extent, Value.weight]
    exact Nat.add_le_add_left (Fields.extent_le_weight fields) 1

theorem Value.extentAll_le_weightAll : ∀ vs : List Value, Value.extentAll vs ≤ Value.weightAll vs
  | [] => Nat.le_refl 0
  | v :: vs => Nat.add_le_add v.extent_le_weight (Value.extentAll_le_weightAll vs)

theorem Fields.extent_le_weight : ∀ fields : List (Scalar × Value),
    Fields.extent fields ≤ Fields.weight fields
  | [] => Nat.le_refl 0
  | (name, v) :: fields => by
    rw [Fields.extent_cons, Fields.weight]
    exact Nat.add_le_add ((fieldExtent_le name v).trans v.extent_le_weight)
      (Fields.extent_le_weight fields)

end

/-! ## What is inside -/

theorem Value.extent_le_of_mem {v : Value} : ∀ {vs : List Value}, v ∈ vs →
    v.extent ≤ Value.extentAll vs
  | w :: vs, h => by
    rw [Value.extentAll]
    rcases List.mem_cons.mp h with rfl | h
    · exact Nat.le_add_right _ _
    · exact Nat.le_add_left_of_le (Value.extent_le_of_mem h)

namespace Fields

variable {fields : Fields} {k : String} {name : Scalar} {v w : Value}

theorem fieldExtent_le_of_mem : ∀ {fields : List (Scalar × Value)}, (name, v) ∈ fields →
    fieldExtent name v ≤ Fields.extent fields
  | (k, w) :: fields, h => by
    rw [extent_cons]
    rcases List.mem_cons.mp h with h | h
    · cases h
      exact Nat.le_add_right _ _
    · exact Nat.le_add_left_of_le (fieldExtent_le_of_mem h)

theorem extent_le_of_get? (hk : k ∉ ["required", "$ref"]) (h : fields.get? k = some v) :
    v.extent ≤ Fields.extent fields := by
  rw [← fieldExtent_text hk]
  exact fieldExtent_le_of_mem (mem_of_get? h)

theorem extent_le_of_object (hobject : v.isObject = true) (h : (name, v) ∈ fields) :
    v.extent ≤ Fields.extent fields := by
  rw [← fieldExtent_of_object hobject]
  exact fieldExtent_le_of_mem h

/-- What is below the fields of an object that a field holds. -/
theorem extent_of_value (hk : k ∉ ["required", "$ref"]) {inner : Fields}
    (h : fields.value k = .object inner) :
    fields.get? k = some (.object inner) ∧ Fields.extent inner + 1 ≤ Fields.extent fields := by
  have hhas : fields.has k = true := has_of_value_ne (by rw [h]; nofun)
  have hget := get?_of_has hhas
  rw [h] at hget
  have hle := extent_le_of_get? hk hget
  rw [Value.extent] at hle
  exact ⟨hget, by omega⟩

theorem extent_filter_le (p : Scalar × Value → Bool) : ∀ fields : List (Scalar × Value),
    Fields.extent (fields.filter p) ≤ Fields.extent fields
  | [] => Nat.le_refl 0
  | (name, v) :: fields => by
    have ih := extent_filter_le p fields
    rw [List.filter_cons, extent_cons]
    split
    · rw [extent_cons]
      omega
    · omega

/-! ## Setting and removing -/

/-- **A field that is set takes the place of the one that had its name.** -/
theorem extent_put (fields : Fields) (k : String) (v : Value) :
    Fields.extent (fields.put (.text k) v) + ((fields.get? k).map (fieldExtent (.text k))).getD 0 =
      Fields.extent fields + fieldExtent (.text k) v := by
  induction fields with
  | nil => simp [Fields.put, extent_cons, get?_nil, Fields.extent]
  | cons f fields ih =>
    obtain ⟨name, w⟩ := f
    rw [put_cons, get?_cons]
    by_cases hname : (name == .text k) = true
    · obtain rfl := eq_of_beq hname
      simp only [beq_self_eq_true, if_true, extent_cons, Option.map_some, Option.getD_some]
      omega
    · rw [if_neg hname, if_neg hname, extent_cons, extent_cons]
      omega

theorem extent_put_le (fields : Fields) (k : String) (v : Value) :
    Fields.extent (fields.put (.text k) v) ≤ Fields.extent fields + fieldExtent (.text k) v := by
  have h := extent_put fields k v
  omega

/-- Required entries that are set do not count. -/
theorem extent_put_required (fields : Fields) (entries : List Value) :
    Fields.extent (fields.put (.text "required") (.list entries)) ≤ Fields.extent fields :=
  extent_put_le fields "required" (.list entries)

theorem extent_erase_le (fields : Fields) (k : String) :
    Fields.extent (fields.erase k) ≤ Fields.extent fields :=
  extent_filter_le _ _

/-- **What is removed does not count any more.** -/
theorem extent_erase_add_le (h : fields.get? k = some v) :
    Fields.extent (fields.erase k) + fieldExtent (.text k) v ≤ Fields.extent fields := by
  induction fields with
  | nil => cases h
  | cons f fields ih =>
    obtain ⟨name, w⟩ := f
    rw [get?_cons] at h
    rw [erase_cons]
    by_cases hname : (name == .text k) = true
    · rw [if_pos hname, Option.some.injEq] at h
      obtain rfl := eq_of_beq hname
      obtain rfl : w = v := h
      have hle := extent_erase_le fields k
      rw [if_pos hname, extent_cons]
      omega
    · rw [if_neg hname] at h
      have ih := ih h
      rw [if_neg hname, extent_cons, extent_cons]
      omega

end Fields

namespace Compile

open Reference Visibility

variable {schema fields : Fields} {v w : Value}

/-! ## Filtering -/

section Filter

variable {vis : Visibility}

/-- What filtering leaves of a value: no more than there was, and an object exactly of an object. -/
structure Lessened (v w : Value) : Prop where
  extent : w.extent ≤ v.extent
  isObject : w.isObject = v.isObject

theorem Lessened.refl (v : Value) : Lessened v v := ⟨Nat.le_refl _, rfl⟩

theorem Lessened.fieldExtent_le (h : Lessened v w) (name : Scalar) :
    fieldExtent name w ≤ fieldExtent name v := by
  have hidle : isIdle name w = isIdle name v := by rw [isIdle, isIdle, h.isObject]
  unfold fieldExtent
  rw [hidle]
  split
  · exact Nat.le_refl 0
  · exact h.extent

theorem extent_adjustRequired {before after adjusted : Fields}
    (h : adjustRequired before after = .ok adjusted) :
    Fields.extent adjusted ≤ Fields.extent after := by
  unfold adjustRequired at h
  split at h
  · obtain ⟨left, -, h⟩ := Outcome.bind_eq_ok.mp h
    split at h
    · cases h
      exact Fields.extent_erase_le after "required"
    · cases h
      exact Fields.extent_put_required after left
  · cases h
    exact Nat.le_refl _

mutual

/-- **Filtering leaves no more than there was.** -/
theorem filterSchema_lessened : ∀ {v w : Value}, filterSchema vis v = .ok w → Lessened v w
  | .object fields, _, h => by
    rw [filterSchema] at h
    split at h
    · cases h
      exact .refl _
    · obtain ⟨filtered, hfiltered, h⟩ := Outcome.bind_eq_ok.mp h
      obtain ⟨adjusted, hadjusted, h⟩ := Outcome.bind_eq_ok.mp h
      cases h
      have hle := extent_adjustRequired hadjusted
      have hfields := filterFields_extent hfiltered
      refine ⟨?_, rfl⟩
      rw [Value.extent, Value.extent]
      omega
  | .scalar s, _, h => by
    cases h
    exact .refl _
  | .list vs, _, h => by
    cases h
    exact .refl _
termination_by structural v => v

theorem filterFields_extent : ∀ {fields filtered : Fields},
    filterFields vis fields = .ok filtered → Fields.extent filtered ≤ Fields.extent fields
  | [], _, h => by
    cases h
    exact Nat.le_refl _
  | (name, value) :: fields, _, h => by
    rw [filterFields_cons] at h
    obtain ⟨value', hvalue, h⟩ := Outcome.bind_eq_ok.mp h
    obtain ⟨filtered, hfields, h⟩ := Outcome.bind_eq_ok.mp h
    cases h
    have hless : Lessened value value' := by
      unfold filterValue at hvalue
      split at hvalue
      · exact filterProperties_lessened hvalue
      · exact filterSchema_lessened hvalue
      · exact filterBranches_lessened hvalue
      · exact filterBranches_lessened hvalue
      · exact filterBranches_lessened hvalue
      · cases hvalue
        exact .refl _
    rw [Fields.extent_cons, Fields.extent_cons]
    exact Nat.add_le_add (hless.fieldExtent_le name) (filterFields_extent hfields)
termination_by structural v => v

theorem filterProperties_lessened : ∀ {v w : Value}, filterProperties vis v = .ok w → Lessened v w
  | .object properties, _, h => by
    rw [filterProperties] at h
    obtain ⟨kept, hkept, h⟩ := Outcome.bind_eq_ok.mp h
    cases h
    exact ⟨Nat.add_le_add_left (filterVisible_extent hkept) 1, rfl⟩
  | .scalar s, _, h => by
    cases h
    exact .refl _
  | .list vs, _, h => by
    cases h
    exact .refl _
termination_by structural v => v

theorem filterVisible_extent : ∀ {fields kept : Fields}, filterVisible vis fields = .ok kept →
    Fields.extent kept ≤ Fields.extent fields
  | [], _, h => by
    cases h
    exact Nat.le_refl _
  | (name, definition) :: fields, _, h => by
    rw [filterVisible] at h
    split at h
    · obtain ⟨filtered, hfiltered, h⟩ := Outcome.bind_eq_ok.mp h
      obtain ⟨kept, hkept, h⟩ := Outcome.bind_eq_ok.mp h
      cases h
      rw [Fields.extent_cons, Fields.extent_cons]
      exact Nat.add_le_add ((filterSchema_lessened hfiltered).fieldExtent_le name)
        (filterVisible_extent hkept)
    · rw [Fields.extent_cons]
      exact Nat.le_add_left_of_le (filterVisible_extent h)
termination_by structural v => v

theorem filterBranches_lessened : ∀ {v w : Value}, filterBranches vis v = .ok w → Lessened v w
  | .list vs, _, h => by
    rw [filterBranches] at h
    obtain ⟨filtered, hfiltered, h⟩ := Outcome.bind_eq_ok.mp h
    cases h
    exact ⟨Nat.add_le_add_left (filterAll_extent hfiltered) 1, rfl⟩
  | .scalar s, _, h => by
    cases h
    exact .refl _
  | .object fields, _, h => by
    cases h
    exact .refl _
termination_by structural v => v

theorem filterAll_extent : ∀ {vs filtered : List Value}, filterAll vis vs = .ok filtered →
    Value.extentAll filtered ≤ Value.extentAll vs
  | [], _, h => by
    cases h
    exact Nat.le_refl _
  | v :: vs, _, h => by
    rw [filterAll] at h
    obtain ⟨v', hv', h⟩ := Outcome.bind_eq_ok.mp h
    obtain ⟨filtered, hfiltered, h⟩ := Outcome.bind_eq_ok.mp h
    cases h
    exact Nat.add_le_add (filterSchema_lessened hv').extent (filterAll_extent hfiltered)
termination_by structural v => v

end

end Filter

/-- What is visible of a schema is no more than the schema. -/
theorem extent_visibleFields {env : Environment} (h : visibleFields env schema = .ok fields) :
    Fields.extent fields ≤ Fields.extent schema := by
  rcases visibleFields_cases h with rfl | ⟨filtered, hfiltered, hadjusted⟩
  · exact Nat.le_refl _
  · exact (extent_adjustRequired hadjusted).trans (filterFields_extent hfiltered)

/-! ## Branches -/

/-- A branch that loses properties may get an empty place for them. -/
theorem extent_withoutProperties {names : List Scalar} {branch reduced : Fields}
    (h : withoutProperties names branch = .ok reduced) :
    Fields.extent reduced ≤ Fields.extent branch + 1 := by
  obtain ⟨properties, hproperties, h⟩ := Outcome.bind_eq_ok.mp h
  have hput : Fields.extent (branch.put (.text "properties")
      (.object (properties.filter fun f => !names.any (·.same f.1)))) ≤ Fields.extent branch + 1 := by
    have hset := Fields.extent_put branch "properties"
      (.object (properties.filter fun f => !names.any (·.same f.1)))
    rw [fieldExtent_text (by decide), Value.extent] at hset
    rcases Value.fieldsIfSet_eq_ok hproperties with rfl | hvalue
    · rw [List.filter_nil, Fields.extent] at hset
      rw [List.filter_nil]
      omega
    · have hkept := Fields.extent_filter_le (fun f => !names.any (·.same f.1)) properties
      rw [(Fields.extent_of_value (by decide) hvalue).1, Option.map_some, Option.getD_some,
        fieldExtent_text (by decide), Value.extent] at hset
      omega
  dsimp only at h
  split at h
  · cases h
    exact hput
  · obtain ⟨entries, -, h⟩ := Outcome.bind_eq_ok.mp h
    cases h
    exact (Fields.extent_put_required _ _).trans hput

theorem extent_reduceBranch {omitted : List Scalar} {branch left : Value}
    (h : reduceBranch omitted branch = .ok (some left)) : left.extent ≤ branch.extent + 1 := by
  rcases reduceBranch_cases h with rfl | ⟨fields, reduced, rfl, rfl, -, -, hreduced⟩
  · exact Nat.le_succ _
  · have hle := extent_withoutProperties hreduced
    rw [Value.extent, Value.extent]
    omega

theorem extent_properties {properties : Fields} {name : Scalar}
    (declared : (schema.value "properties").fieldsIfSet = .ok properties)
    (held : (name, v) ∈ properties) (hobject : v.isObject = true) :
    v.extent ≤ Fields.extent schema := by
  rcases Value.fieldsIfSet_eq_ok declared with rfl | hvalue
  · cases held
  · have hwithin := (Fields.extent_of_value (by decide) hvalue).2
    have hproperty := Fields.extent_le_of_object hobject held
    omega

/-- What a branch is compiled as is hardly more than the branch. -/
theorem BranchPart.extent_le {branch : Value} (h : BranchPart branch v) (hobject : v.isObject = true) :
    v.extent ≤ branch.extent + 1 := by
  cases h with
  | whole reduced => exact extent_reduceBranch reduced
  | property reduced declared held =>
    have hle := extent_reduceBranch reduced
    have hproperty := extent_properties declared held hobject
    rw [Value.extent] at hle
    omega

/-- Only of an object an object is left. -/
theorem isObject_of_reduceBranch {omitted : List Scalar} {branch left : Value}
    (h : reduceBranch omitted branch = .ok (some left)) (hobject : left.isObject = true) :
    branch.isObject = true := by
  rcases reduceBranch_cases h with rfl | ⟨fields, reduced, rfl, -⟩
  · exact hobject
  · rfl

theorem BranchPart.isObject {branch : Value} (h : BranchPart branch v) (hobject : v.isObject = true) :
    branch.isObject = true := by
  cases h with
  | whole reduced => exact isObject_of_reduceBranch reduced hobject
  | property reduced declared held => exact isObject_of_reduceBranch reduced rfl

/-! ## Parts -/

/-- Only a list has objects to be walked over. -/
theorem eq_list_of_walk {items : List Value} (h : v.walk = .ok items) (hw : w ∈ items)
    (hobject : w.isObject = true) : v = .list items := by
  cases v with
  | list vs =>
    cases h
    rfl
  | object fields =>
    cases h
    obtain ⟨f, -, rfl⟩ := List.mem_map.mp hw
    cases hobject
  | scalar s =>
    cases s with
    | text t =>
      cases h
      obtain ⟨c, -, rfl⟩ := List.mem_map.mp hw
      cases hobject
    | _ => cases h

theorem extent_listed {k : String} (hk : k ∉ ["required", "$ref"]) {items : List Value}
    (held : schema.get? k = some (.list items)) (hw : w ∈ items) :
    w.extent + 1 ≤ Fields.extent schema := by
  have hlist := Fields.extent_le_of_get? hk held
  have hitem := Value.extent_le_of_mem hw
  rw [Value.extent] at hlist
  omega

/-- A schema with one of its types. -/
theorem extent_oneType {type : Value} (several : 1 < (Schema.nonNullTypes schema).length)
    (held : type ∈ Schema.nonNullTypes schema) :
    Fields.extent ((schema.erase "nullable").put (.text "type") type) + 1 ≤ Fields.extent schema := by
  unfold Schema.nonNullTypes at several held
  split at held
  · rename_i types htypes
    have hhas : schema.has "type" = true := Fields.has_of_value_ne (by rw [htypes]; nofun)
    have hget : (schema.erase "nullable").get? "type" = some (.list types) := by
      rw [Fields.get?_erase, if_neg (by decide), Fields.get?_of_has hhas, htypes]
    have hput := Fields.extent_put (schema.erase "nullable") "type" type
    have herase := Fields.extent_erase_le schema "nullable"
    have htype := Value.extent_le_of_mem (List.mem_of_mem_filter held)
    rw [hget, Option.map_some, Option.getD_some, fieldExtent_text (by decide),
      fieldExtent_text (by decide), Value.extent] at hput
    omega
  · rename_i t htypes
    simp [htypes] at several
  · cases held

/-- **The parts of a schema go less far down than the schema.** -/
theorem extent_part_lt (h : PartOf schema v) (hobject : v.isObject = true) :
    v.extent < (Value.object schema).extent := by
  rw [Value.extent, Nat.lt_one_add_iff]
  cases h with
  | @keyword k known held =>
    have hhas : schema.has k = true := by
      refine Fields.has_of_value_ne fun hnull => ?_
      rw [hnull] at held
      cases held
    have hkeywords : ∀ k ∈ schemaKeywords, k ∉ ["required", "$ref"] := by decide
    exact Fields.extent_le_of_get? (hkeywords k known) (Fields.get?_of_has hhas)
  | place walked held =>
    have hlist := eq_list_of_walk walked held hobject
    have hhas : schema.has "prefixItems" = true := Fields.has_of_value_ne (by rw [hlist]; nofun)
    have hget := Fields.get?_of_has hhas
    rw [hlist] at hget
    exact (Nat.le_succ _).trans (extent_listed (by decide) hget held)
  | property declared held => exact extent_properties declared held hobject
  | @entry k entries name v known is held =>
    have hkeywords : ∀ k ∈ ["patternProperties", "dependencies"], k ∉ ["required", "$ref"] := by
      decide
    have hwithin := (Fields.extent_of_value (hkeywords k known) is).2
    have hentry := Fields.extent_le_of_object hobject held
    omega
  | oneType several held =>
    rw [Value.extent, Nat.add_comm]
    exact extent_oneType several held
  | excluded held => exact Fields.extent_le_of_get? (by decide) held
  | remainder held =>
    have hnot := Fields.extent_erase_add_le (Fields.get?_of_has held)
    have hnullable := Fields.extent_erase_le (schema.erase "not") "nullable"
    have hone := (schema.value "not").one_le_extent
    rw [fieldExtent_text (by decide)] at hnot
    rw [Value.extent]
    omega
  | @branch k value branches b v known held walked listed part =>
    have hkeywords : ∀ k ∈ ["allOf", "oneOf", "anyOf"], k ∉ ["required", "$ref"] := by decide
    have hbranch := part.isObject hobject
    rw [eq_list_of_walk walked listed hbranch] at held
    exact (part.extent_le hobject).trans (extent_listed (hkeywords k known) held listed)
  | @target discriminator mapping name t told mapped held =>
    have hdiscriminator := (Fields.extent_of_value (by decide) told).2
    have hmapping := (Fields.extent_of_value (by decide) mapped).2
    have htarget := Fields.fieldExtent_le_of_mem held
    have href := fieldExtent_ref_le name t
    rw [Value.extent, Fields.extent_cons, Fields.extent]
    omega

end Compile

end SchemaForge
