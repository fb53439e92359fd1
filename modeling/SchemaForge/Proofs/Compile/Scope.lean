import SchemaForge.Compile.AllOf
import SchemaForge.Compile.Union
import SchemaForge.Compile.Visible
import SchemaForge.Proofs.Reference.Scope

/-!
# Compilation stays inside a schema

Compilation changes a schema before it goes into it: it drops the properties that are not visible or
were already defined, sets one of several types, and removes what it has dealt with. What held
everywhere in the schema still does then, if it is a `Lasting` condition: one that looks at the
reference, the discriminator and the properties of a schema only, and that survives the loss of
properties.

That all references of a schema are in scope is such a condition, since none of these changes brings
in a reference that the schema did not have.
-/

namespace SchemaForge.Compile

/-- Besides properties and required entries, a branch that loses properties keeps what it has. -/
theorem get?_withoutProperties {names : List Scalar} {branch reduced : Fields} {k : String}
    (h : withoutProperties names branch = .ok reduced) (hk : k ∉ ["properties", "required"]) :
    reduced.get? k = branch.get? k := by
  simp only [List.mem_cons, List.not_mem_nil, or_false, not_or] at hk
  obtain ⟨properties, -, h⟩ := Outcome.bind_eq_ok.mp h
  dsimp only at h
  split at h
  · cases h
    rw [Fields.get?_put, if_neg (Ne.symm hk.1)]
  · obtain ⟨entries, -, h⟩ := Outcome.bind_eq_ok.mp h
    cases h
    rw [Fields.get?_put, if_neg (Ne.symm hk.2), Fields.get?_put, if_neg (Ne.symm hk.1)]

/-- A branch that loses properties keeps the others, in their order. -/
theorem properties_withoutProperties {names : List Scalar} {branch reduced : Fields}
    (h : withoutProperties names branch = .ok reduced) :
    ∃ properties, (branch.value "properties").fieldsIfSet = .ok properties ∧
      reduced.value "properties" = .object (properties.filter fun f => !names.any (·.same f.1)) := by
  obtain ⟨properties, hproperties, h⟩ := Outcome.bind_eq_ok.mp h
  refine ⟨properties, hproperties, ?_⟩
  dsimp only at h
  split at h
  · cases h
    exact Fields.value_put_self _ _ _
  · obtain ⟨entries, -, h⟩ := Outcome.bind_eq_ok.mp h
    cases h
    rw [Fields.value_put_of_ne (by decide)]
    exact Fields.value_put_self _ _ _

/-- So it has properties, maybe none. -/
theorem has_properties_withoutProperties {names : List Scalar} {branch reduced : Fields}
    (h : withoutProperties names branch = .ok reduced) : reduced.has "properties" = true := by
  obtain ⟨properties, -, hvalue⟩ := properties_withoutProperties h
  exact Fields.has_of_value_ne (by rw [hvalue]; nofun)

/-- A branch that is an object stays whole, or loses properties, after which it may be spent. -/
theorem reduceBranch_object {omitted : List Scalar} {fields : Fields} {left : Option Value}
    (h : reduceBranch omitted (.object fields) = .ok left) :
    ((omitted.isEmpty || fields.has "$ref" || fields.has "allOf") = true ∧
        left = some (.object fields)) ∨
      ((omitted.isEmpty || fields.has "$ref" || fields.has "allOf") = false ∧
        ∃ reduced, withoutProperties omitted fields = .ok reduced ∧
          left = if isSpent reduced then none else some (.object reduced)) := by
  unfold reduceBranch at h
  dsimp only at h
  split at h
  · rename_i hwhole
    cases h
    exact Or.inl ⟨hwhole, rfl⟩
  · rename_i hreduced
    obtain ⟨reduced, hwithout, h⟩ := Outcome.bind_eq_ok.mp h
    cases h
    exact Or.inr ⟨by simpa using hreduced, reduced, hwithout, rfl⟩

end SchemaForge.Compile

namespace SchemaForge.Reference

variable {P : Fields → Prop} {S : String → Prop} {schema schema' : Fields} {v : Value}

/-! ## Values that hold schemas -/

theorem holds_object {k : String} {fields c : Fields} (h : Holds k (.object fields) c) :
    (k ∈ namedKeywords ∧ ∃ n, (n, .object c) ∈ fields) ∨ (k ∈ singleKeywords ∧ c = fields) := by
  cases h with
  | named hk hc => exact Or.inl ⟨hk, _, hc⟩
  | single hk => exact Or.inr ⟨hk, rfl⟩

theorem holds_list {k : String} {vs : List Value} {c : Fields} (h : Holds k (.list vs) c) :
    .object c ∈ vs := by
  cases h with
  | items hc => exact hc
  | listed _ hc => exact hc

/-- A keyword that holds no schemas makes no difference. -/
theorem not_holds_of_keyword {k : String} {c : Fields}
    (hk : k ∉ namedKeywords ++ singleKeywords ++ listKeywords) : ¬ Holds k v c := by
  intro h
  simp only [List.mem_append, not_or] at hk
  obtain ⟨⟨hnamed, hsingle⟩, hlist⟩ := hk
  cases h with
  | named hk _ => exact hnamed hk
  | single hk => exact hsingle hk
  | items _ => exact hsingle (by decide)
  | listed hk _ => exact hlist hk

/-- Something holds everywhere in the schemas that a value under a keyword holds. -/
def HeldEverywhere (P : Fields → Prop) (k : String) (v : Value) : Prop :=
  ∀ c, Holds k v c → Everywhere P c

/-- **What holds everywhere in a schema holds in all that its keywords hold.** -/
theorem Everywhere.held (h : Everywhere P schema) (k : String) :
    HeldEverywhere P k (schema.value k) := fun _ hc => h.of_holds hc

/-- And the other way round: it is enough to look at the schema and at each of its keywords. -/
theorem Everywhere.of_held (here : P schema)
    (held : ∀ k, HeldEverywhere P k (schema.value k)) : Everywhere P schema := by
  refine .mk here fun c hc => ?_
  obtain ⟨k, hk⟩ := mem_children.mp hc
  exact held k c hk

/-- Other keywords hold no schemas. -/
theorem held_of_keyword {k : String} (hk : k ∉ namedKeywords ++ singleKeywords ++ listKeywords)
    (v : Value) : HeldEverywhere P k v := fun _ hc => absurd hc (not_holds_of_keyword hk)

/-- Putting a field matters to its own keyword only. -/
theorem held_put (h : ∀ k, HeldEverywhere P k (schema.value k)) {n : String}
    (hv : HeldEverywhere P n v) (k : String) :
    HeldEverywhere P k ((schema.put (.text n) v).value k) := by
  by_cases hk : n = k
  · subst hk
    rw [Fields.value_put_self]
    exact hv
  · rw [Fields.value_put_of_ne hk]
    exact h k

theorem held_erase (h : ∀ k, HeldEverywhere P k (schema.value k)) (n k : String) :
    HeldEverywhere P k ((schema.erase n).value k) := by
  by_cases hk : n = k
  · subst hk
    rw [Fields.value_erase_self]
    exact fun _ hc => absurd hc not_holds_null
  · rw [Fields.value_erase_of_ne hk]
    exact h k

theorem held_properties {fields : Fields} :
    HeldEverywhere P "properties" (.object fields) ↔ ∀ f ∈ fields, ValueEverywhere P f.2 := by
  constructor
  · intro h f hf
    obtain ⟨n, v⟩ := f
    cases v with
    | object c => exact h c (.named (by decide) hf)
    | scalar s => trivial
    | list vs => trivial
  · intro h c hc
    rcases holds_object hc with ⟨-, n, hf⟩ | ⟨hk, -⟩
    · exact h _ hf
    · exact absurd hk (by decide)

theorem held_items {c : Fields} : HeldEverywhere P "items" (.object c) ↔ Everywhere P c := by
  constructor
  · intro h
    exact h c (.single (by decide))
  · intro h c' hc
    rcases holds_object hc with ⟨hk, -⟩ | ⟨-, rfl⟩
    · exact absurd hk (by decide)
    · exact h

theorem held_listed {k : String} (hk : k ∈ listKeywords) {vs : List Value} :
    HeldEverywhere P k (.list vs) ↔ ∀ v ∈ vs, ValueEverywhere P v := by
  constructor
  · intro h v hv
    cases v with
    | object c => exact h c (.listed hk hv)
    | scalar s => trivial
    | list vs => trivial
  · intro h c hc
    exact h _ (holds_list hc)

/-- The definitions of declared properties. -/
theorem Everywhere.properties (h : Everywhere P schema) {fields : Fields}
    (hf : (schema.value "properties").fieldsIfSet = .ok fields) :
    ∀ f ∈ fields, ValueEverywhere P f.2 := by
  rcases Value.fieldsIfSet_eq_ok hf with rfl | hv
  · exact fun f hf => absurd hf List.not_mem_nil
  · exact fun f hf => h.named (by decide) hv hf

/-! ## Filtered fields -/

section Filter

open Visibility

variable {vis : Visibility}

/-- The keywords whose values filtering goes into. -/
def filteredKeywords : List String := ["properties", "items", "allOf", "oneOf", "anyOf"]

/-- What filtering makes of the value under a keyword. -/
def filterValue (vis : Visibility) (name : Scalar) (value : Value) : Except Fault Value :=
  match name with
  | .text "properties" => filterProperties vis value
  | .text "items" => filterSchema vis value
  | .text "allOf" => filterBranches vis value
  | .text "oneOf" => filterBranches vis value
  | .text "anyOf" => filterBranches vis value
  | _ => .ok value

theorem filterFields_cons (name : Scalar) (value : Value) (fields : Fields) :
    filterFields vis ((name, value) :: fields) = do
      let value ← filterValue vis name value
      let fields ← filterFields vis fields
      return (name, value) :: fields := by
  conv => lhs; unfold filterFields
  dsimp only
  split
  case h_6 => rw [filterValue] <;> assumption
  all_goals rfl

theorem filterValue_of_keyword {k : String} (hk : k ∉ filteredKeywords) :
    filterValue vis (.text k) v = .ok v := by
  unfold filterValue
  split
  case h_6 => rfl
  all_goals
    rename_i heq
    cases heq
    exact absurd hk (by decide)

/-- Filtering leaves each field in its place, or finds none on either side. -/
theorem get?_filterFields {k : String} : ∀ {fields filtered : Fields},
    filterFields vis fields = .ok filtered →
    (fields.get? k = none ∧ filtered.get? k = none) ∨
      ∃ v v', fields.get? k = some v ∧ filtered.get? k = some v' ∧
        filterValue vis (.text k) v = .ok v'
  | [], filtered, h => by
    cases h
    exact Or.inl ⟨rfl, rfl⟩
  | (name, value) :: fields, _, h => by
    rw [filterFields_cons] at h
    obtain ⟨value', hvalue, h⟩ := Outcome.bind_eq_ok.mp h
    obtain ⟨filtered, hfields, h⟩ := Outcome.bind_eq_ok.mp h
    cases h
    rw [Fields.get?_cons, Fields.get?_cons]
    by_cases hname : (name == .text k) = true
    · rw [if_pos hname, if_pos hname]
      rw [eq_of_beq hname] at hvalue
      exact Or.inr ⟨value, value', rfl, rfl, hvalue⟩
    · rw [if_neg hname, if_neg hname]
      exact get?_filterFields hfields

theorem value_filterFields {k : String} (hk : k ∉ filteredKeywords) {fields filtered : Fields}
    (h : filterFields vis fields = .ok filtered) : filtered.value k = fields.value k := by
  rcases get?_filterFields (k := k) h with ⟨hs, hf⟩ | ⟨v, v', hs, hf, hv⟩
  · rw [Fields.value, Fields.value, hs, hf]
  · rw [filterValue_of_keyword hk] at hv
    cases hv
    rw [Fields.value, Fields.value, hs, hf]

end Filter

/-! ## Lasting conditions -/

/-- The keywords that a lasting condition may look at. -/
def lastingKeywords : List String := ["$ref", "discriminator", "properties"]

/-- A condition on schemas that survives what compilation does to them, where properties are filtered
for a visibility. -/
structure Lasting (vis : Visibility) (P : Fields → Prop) : Prop where
  congr : ∀ {schema schema'}, P schema →
    (∀ k ∈ lastingKeywords, schema'.value k = schema.value k) → P schema'
  filtered : ∀ {schema schema'}, P schema → vis.filterFields schema = .ok schema' → P schema'
  fewer : ∀ {names schema schema'}, P schema →
    Compile.withoutProperties names schema = .ok schema' → P schema'
  /-- A target of a discriminator mapping, as a schema that is nothing but a reference. -/
  refers : ∀ {schema f}, P schema → f ∈ mappingOf schema → P [(.text "$ref", f.2)]

section Lasting

open Visibility

variable {vis : Visibility}

section

variable (hP : Lasting vis P)
include hP

/-- A keyword that neither refers to schemas nor holds some may be set to anything. -/
theorem Lasting.put (h : Everywhere P schema) {n : String}
    (hn : n ∉ namedKeywords ++ singleKeywords ++ listKeywords) (hlasting : n ∉ lastingKeywords)
    (v : Value) : Everywhere P (schema.put (.text n) v) := by
  refine .of_held (hP.congr h.here fun k hk => ?_) (held_put h.held (held_of_keyword hn v))
  refine Fields.value_put_of_ne ?_
  rintro rfl
  exact hlasting hk

theorem Lasting.erase (h : Everywhere P schema) {n : String} (hn : n ∉ lastingKeywords) :
    Everywhere P (schema.erase n) := by
  refine .of_held (hP.congr h.here fun k hk => ?_) (held_erase h.held n)
  refine Fields.value_erase_of_ne ?_
  rintro rfl
  exact hn hk

/-! ### Visible properties -/

/-- Required entries are names and hold no schemas. -/
theorem Lasting.adjustRequired {before after adjusted : Fields} (h : Everywhere P after)
    (ha : Visibility.adjustRequired before after = .ok adjusted) : Everywhere P adjusted := by
  unfold Visibility.adjustRequired at ha
  split at ha
  · obtain ⟨left, -, ha⟩ := Outcome.bind_eq_ok.mp ha
    split at ha
    · cases ha
      exact hP.erase h (by decide)
    · cases ha
      exact hP.put h (by decide) (by decide) _
  · cases ha
    exact h

end

theorem held_filterSchema {filtered : Value} (h : filterSchema vis v = .ok filtered)
    (hscope : ValueEverywhere P v → ValueEverywhere P filtered) (hs : HeldEverywhere P "items" v) :
    HeldEverywhere P "items" filtered := by
  cases v with
  | object fields =>
    have hin := hscope (held_items.mp hs)
    rw [filterSchema] at h
    split at h
    · cases h
      exact hs
    · obtain ⟨filtered, -, h⟩ := Outcome.bind_eq_ok.mp h
      obtain ⟨adjusted, -, h⟩ := Outcome.bind_eq_ok.mp h
      cases h
      exact held_items.mpr hin
  | scalar s =>
    cases h
    exact hs
  | list vs =>
    cases h
    exact hs

mutual

/-- **A lasting condition that holds everywhere in a schema does so after filtering.** -/
theorem filterSchema_everywhere (hP : Lasting vis P) : ∀ {v filtered : Value},
    filterSchema vis v = .ok filtered →
    ValueEverywhere P v → ValueEverywhere P filtered
  | .object fields, _, h, hs => by
    rw [filterSchema] at h
    split at h
    · cases h
      exact hs
    · obtain ⟨filtered, hf, h⟩ := Outcome.bind_eq_ok.mp h
      obtain ⟨adjusted, ha, h⟩ := Outcome.bind_eq_ok.mp h
      cases h
      refine hP.adjustRequired (.of_held (hP.filtered hs.here hf) fun k => ?_) ha
      exact filterFields_held hP k hf (hs.held k)
  | .scalar s, _, h, _ => by
    cases h
    trivial
  | .list vs, _, h, _ => by
    cases h
    trivial
termination_by structural v => v

/-- Field by field, by the keyword that holds the value. -/
theorem filterFields_held (hP : Lasting vis P) (k : String) : ∀ {fields filtered : Fields},
    filterFields vis fields = .ok filtered → HeldEverywhere P k (fields.value k) →
    HeldEverywhere P k (filtered.value k)
  | [], _, h, hs => by
    cases h
    exact hs
  | (name, value) :: fields, _, h, hs => by
    rw [filterFields_cons] at h
    obtain ⟨value', hvalue, h⟩ := Outcome.bind_eq_ok.mp h
    obtain ⟨filtered, hfields, h⟩ := Outcome.bind_eq_ok.mp h
    cases h
    rw [Fields.value_cons] at hs ⊢
    -- the first field with the name decides, before filtering and after it
    by_cases hname : (name == .text k) = true
    · rw [if_pos hname] at hs ⊢
      rw [eq_of_beq hname] at hvalue
      unfold filterValue at hvalue
      split at hvalue
      case h_6 =>
        cases hvalue
        exact hs
      all_goals
        rename_i heq
        cases heq
      · exact filterProperties_held hP hvalue hs
      · exact held_filterSchema hvalue (filterSchema_everywhere hP hvalue) hs
      · exact filterBranches_held hP (by decide) hvalue hs
      · exact filterBranches_held hP (by decide) hvalue hs
      · exact filterBranches_held hP (by decide) hvalue hs
    · rw [if_neg hname] at hs ⊢
      exact filterFields_held hP k hfields hs
termination_by structural v => v

theorem filterProperties_held (hP : Lasting vis P) : ∀ {v filtered : Value},
    filterProperties vis v = .ok filtered →
    HeldEverywhere P "properties" v → HeldEverywhere P "properties" filtered
  | .object properties, _, h, hs => by
    rw [filterProperties] at h
    obtain ⟨kept, hkept, h⟩ := Outcome.bind_eq_ok.mp h
    cases h
    exact held_properties.mpr (filterVisible_everywhere hP hkept (held_properties.mp hs))
  | .scalar s, _, h, hs => by
    cases h
    exact hs
  | .list vs, _, h, hs => by
    cases h
    exact hs
termination_by structural v => v

/-- Of properties only some are left, each of them filtered. -/
theorem filterVisible_everywhere (hP : Lasting vis P) : ∀ {fields kept : Fields},
    filterVisible vis fields = .ok kept →
    (∀ f ∈ fields, ValueEverywhere P f.2) → ∀ f ∈ kept, ValueEverywhere P f.2
  | [], _, h, hs => by
    cases h
    exact hs
  | (name, definition) :: fields, _, h, hs => by
    obtain ⟨hd, hfields⟩ := List.forall_mem_cons.mp hs
    rw [filterVisible] at h
    split at h
    · obtain ⟨filtered, hfiltered, h⟩ := Outcome.bind_eq_ok.mp h
      obtain ⟨kept, hkept, h⟩ := Outcome.bind_eq_ok.mp h
      cases h
      exact List.forall_mem_cons.mpr
        ⟨filterSchema_everywhere hP hfiltered hd, filterVisible_everywhere hP hkept hfields⟩
    · exact filterVisible_everywhere hP h hfields
termination_by structural v => v

theorem filterBranches_held (hP : Lasting vis P) {k : String} (hk : k ∈ listKeywords) :
    ∀ {v filtered : Value}, filterBranches vis v = .ok filtered → HeldEverywhere P k v → HeldEverywhere P k filtered
  | .list vs, _, h, hs => by
    rw [filterBranches] at h
    obtain ⟨filtered, hf, h⟩ := Outcome.bind_eq_ok.mp h
    cases h
    exact (held_listed hk).mpr (filterAll_everywhere hP hf ((held_listed hk).mp hs))
  | .scalar s, _, h, hs => by
    cases h
    exact hs
  | .object fields, _, h, hs => by
    cases h
    exact hs
termination_by structural v => v

theorem filterAll_everywhere (hP : Lasting vis P) : ∀ {vs filtered : List Value},
    filterAll vis vs = .ok filtered →
    (∀ v ∈ vs, ValueEverywhere P v) → ∀ v ∈ filtered, ValueEverywhere P v
  | [], _, h, hs => by
    cases h
    exact hs
  | v :: vs, _, h, hs => by
    obtain ⟨hv, hvs⟩ := List.forall_mem_cons.mp hs
    rw [filterAll] at h
    obtain ⟨v', hv', h⟩ := Outcome.bind_eq_ok.mp h
    obtain ⟨filtered, hf, h⟩ := Outcome.bind_eq_ok.mp h
    cases h
    exact List.forall_mem_cons.mpr ⟨filterSchema_everywhere hP hv' hv, filterAll_everywhere hP hf hvs⟩
termination_by structural v => v

end

variable (hP : Lasting vis P)
include hP

theorem filter_everywhere {filtered : Value} (h : vis.filter v = .ok filtered)
    (hs : ValueEverywhere P v) : ValueEverywhere P filtered := by
  cases vis with
  | all =>
    cases h
    exact hs
  | request => exact filterSchema_everywhere hP h hs
  | response => exact filterSchema_everywhere hP h hs

/-! ### Branches -/

/-- Losing properties leaves a condition on all schemas. -/
theorem withoutProperties_everywhere {names : List Scalar} (h : Everywhere P schema)
    (hr : Compile.withoutProperties names schema = .ok schema') : Everywhere P schema' := by
  have hhere := hP.fewer h.here hr
  obtain ⟨fields, hfields, hr⟩ := Outcome.bind_eq_ok.mp hr
  have hkept : HeldEverywhere P "properties"
      (.object (fields.filter fun f => !names.any (·.same f.1))) :=
    held_properties.mpr fun f hf => h.properties hfields f (List.mem_of_mem_filter hf)
  dsimp only at hr
  split at hr
  · cases hr
    exact .of_held hhere (held_put h.held hkept)
  · obtain ⟨entries, -, hr⟩ := Outcome.bind_eq_ok.mp hr
    cases hr
    exact .of_held hhere (held_put (held_put h.held hkept) (held_of_keyword (by decide) _))

/-- So does reducing a branch. -/
theorem reduceBranch_everywhere {omitted : List Scalar} {branch : Value} {reduced : Option Value}
    (h : ValueEverywhere P branch) (hr : Compile.reduceBranch omitted branch = .ok reduced) :
    ∀ b ∈ reduced, ValueEverywhere P b := by
  intro b hb
  cases branch with
  | object fields =>
    rcases Compile.reduceBranch_object hr with ⟨-, rfl⟩ | ⟨-, left, hleft, rfl⟩
    · cases hb
      exact h
    · split at hb
      · cases hb
      · cases hb
        exact withoutProperties_everywhere hP h hleft
  | _ =>
    cases hr
    cases hb
    exact h

/-- The target of a discriminator mapping as a branch. -/
theorem Lasting.target (h : Everywhere P schema) {f : Scalar × Value} (hf : f ∈ mappingOf schema) :
    Everywhere P [(.text "$ref", f.2)] := by
  refine .of_held (hP.refers h.here hf) fun k c hc => ?_
  by_cases hk : "$ref" = k
  · subst hk
    exact absurd hc (not_holds_of_keyword (by decide))
  · have hnull : Fields.value [(.text "$ref", f.2)] k = .null := by
      rw [Fields.value_cons, if_neg (by simpa using hk)]
      rfl
    rw [hnull] at hc
    exact absurd hc not_holds_null

end Lasting

/-! ## Branches in the order of a mapping -/

section Branches

open Compile

/-- What is found is one of the branches. -/
theorem mem_of_matchingBranch {target : Value} : ∀ {position : Nat} {branches : List Value}
    {found : Nat × Value}, matchingBranch target position branches = .ok (some found) →
    found.2 ∈ branches
  | _, [], _, h => by cases h
  | position, branch :: rest, found, h => by
    obtain ⟨fields, -, h⟩ := Outcome.bind_eq_ok.mp h
    split at h
    · obtain ⟨hit, -, h⟩ := Outcome.bind_eq_ok.mp h
      split at h
      · cases h
        exact List.mem_cons_self
      · exact List.mem_cons_of_mem _ (mem_of_matchingBranch h)
    · exact List.mem_cons_of_mem _ (mem_of_matchingBranch h)

theorem mem_of_leftOver {ordered : Ordered} {b : Value} : ∀ {position : Nat}
    {branches : List Value}, b ∈ leftOver ordered position branches → b ∈ branches
  | _, [], h => h
  | position, branch :: rest, h => by
    rw [leftOver] at h
    split at h
    · exact List.mem_cons_of_mem _ (mem_of_leftOver h)
    · rcases List.mem_cons.mp h with rfl | h
      · exact List.mem_cons_self
      · exact List.mem_cons_of_mem _ (mem_of_leftOver h)

end Branches

/-! ## Names in scope -/

/-- That a schema refers to names of a set only is a lasting condition. -/
theorem lasting_ownNames (vis : Visibility) : Lasting vis (OwnNames S) := by
  have hcongr : ∀ {schema schema' : Fields}, OwnNames S schema →
      schema'.value "$ref" = schema.value "$ref" →
      schema'.value "discriminator" = schema.value "discriminator" → OwnNames S schema' := by
    intro schema schema' h href hmap
    refine ⟨?_, ?_⟩
    · rw [href]
      exact h.ref
    · rw [mappingOf, hmap]
      exact h.mapping
  refine ⟨fun h hk => ?_, fun h hf => ?_, fun h hr => ?_, fun h hf => ?_⟩
  · exact hcongr h (hk _ (by decide)) (hk _ (by decide))
  · exact hcongr h (value_filterFields (by decide) hf) (value_filterFields (by decide) hf)
  · refine hcongr h ?_ ?_
    all_goals
      rw [Fields.value, Compile.get?_withoutProperties hr (by decide)]
      rfl
  · exact ⟨fun r hr => h.mapping _ hf r hr, fun f hf => absurd hf List.not_mem_nil⟩

end SchemaForge.Reference
