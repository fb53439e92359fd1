import SchemaForge.Proofs.Document.Fields
import SchemaForge.Proofs.Outcome
import SchemaForge.Reference.Names

/-!
# The scope of a schema

A schema refers to others in itself and in the schemas inside it. `Everywhere` says that something
holds of a schema and of all schemas inside it; `InScope` says so of the names that are referred to.

The walk that collects the names keeps a stack. It goes through every schema inside the one it
starts with, because what it puts on the stack in place of a schema is smaller than the schema. So
the names it collects are a scope of the schema, and it fails only if a discriminator mapping
somewhere inside has a target that is no text.
-/

namespace SchemaForge.Reference

/-! ## Direct subschemas -/

/-- A schema is held by a value that stands under a keyword. -/
inductive Holds : String → Value → Fields → Prop where
  | named {k : String} {fields : Fields} {n : Scalar} {c : Fields} (hk : k ∈ namedKeywords)
      (hc : (n, .object c) ∈ fields) : Holds k (.object fields) c
  | single {k : String} {c : Fields} (hk : k ∈ singleKeywords) : Holds k (.object c) c
  | items {vs : List Value} {c : Fields} (hc : .object c ∈ vs) : Holds "items" (.list vs) c
  | listed {k : String} {vs : List Value} {c : Fields} (hk : k ∈ listKeywords)
      (hc : .object c ∈ vs) : Holds k (.list vs) c

theorem mem_namedSchemas {path : String} {v : Value} {c : Fields} :
    c ∈ (namedSchemas path v).map (·.schema) ↔
      ∃ fields n, v = .object fields ∧ (n, .object c) ∈ fields := by
  cases v with
  | object fields =>
    simp only [namedSchemas, List.mem_map, List.mem_filterMap, Value.object.injEq]
    constructor
    · rintro ⟨l, ⟨f, hf, hl⟩, rfl⟩
      obtain ⟨n, w⟩ := f
      cases w with
      | object schema =>
        cases hl
        exact ⟨fields, n, rfl, hf⟩
      | scalar s => cases hl
      | list vs => cases hl
    · rintro ⟨fields', n, rfl, hf⟩
      exact ⟨_, ⟨_, hf, rfl⟩, rfl⟩
  | scalar s => simp [namedSchemas]
  | list vs => simp [namedSchemas]

theorem mem_listedSchemas {path : String} {c : Fields} : ∀ {index : Nat} {vs : List Value},
    c ∈ (listedSchemas path index vs).map (·.schema) ↔ .object c ∈ vs
  | _, [] => by simp [listedSchemas]
  | index, .object schema :: vs => by
    rw [listedSchemas, List.map_cons, List.mem_cons, mem_listedSchemas, List.mem_cons,
      Value.object.injEq]
  | index, .scalar s :: vs => by
    rw [listedSchemas, mem_listedSchemas, List.mem_cons]
    · simp
    · simp
  | index, .list items :: vs => by
    rw [listedSchemas, mem_listedSchemas, List.mem_cons]
    · simp
    · simp

theorem mem_schemaList {path : String} {v : Value} {c : Fields} :
    c ∈ (schemaList path v).map (·.schema) ↔ ∃ vs, v = .list vs ∧ .object c ∈ vs := by
  cases v with
  | list vs => simp [schemaList, mem_listedSchemas]
  | scalar s => simp [schemaList]
  | object fields => simp [schemaList]

/-- Some keywords hold one schema, or a list of them where that is allowed. -/
theorem mem_singleSchema {path : String} {allowed : Bool} {v : Value} {c : Fields} :
    c ∈ (singleSchema path allowed v).map (·.schema) ↔
      v = .object c ∨ allowed = true ∧ ∃ vs, v = .list vs ∧ .object c ∈ vs := by
  cases v with
  | list vs => cases allowed <;> simp [singleSchema, mem_listedSchemas]
  | scalar s => simp [singleSchema]
  | object fields => simp [singleSchema, eq_comm]

/-- **The direct subschemas are those that the values under the keywords hold.** -/
theorem mem_children {schema c : Fields} :
    c ∈ children schema ↔ ∃ k, Holds k (schema.value k) c := by
  simp only [children, subschemas, List.map_append, List.map_flatMap, List.mem_append,
    List.mem_flatMap, mem_namedSchemas, mem_singleSchema, mem_schemaList]
  constructor
  · rintro ((⟨k, hk, fields, n, hv, hc⟩ | ⟨k, hk, hv | ⟨hitems, vs, hv, hc⟩⟩) | ⟨k, hk, vs, hv, hc⟩)
    · exact ⟨k, hv ▸ .named hk hc⟩
    · exact ⟨k, hv ▸ .single hk⟩
    · rw [beq_iff_eq.mp hitems] at hv
      exact ⟨"items", hv ▸ .items hc⟩
    · exact ⟨k, hv ▸ .listed hk hc⟩
  · rintro ⟨k, h⟩
    generalize hv : schema.value k = v at h
    cases h with
    | named hk hc => exact Or.inl (Or.inl ⟨k, hk, _, _, hv, hc⟩)
    | single hk => exact Or.inl (Or.inr ⟨k, hk, Or.inl hv⟩)
    | items hc => exact Or.inl (Or.inr ⟨"items", by decide, Or.inr ⟨rfl, _, hv, hc⟩⟩)
    | listed hk hc => exact Or.inr ⟨k, hk, _, hv, hc⟩

/-! ## Schemas inside a schema -/

/-- Something holds of a schema and of all schemas inside it. -/
inductive Everywhere (P : Fields → Prop) : Fields → Prop where
  | mk {schema : Fields} (here : P schema) (inside : ∀ c ∈ children schema, Everywhere P c) :
    Everywhere P schema

variable {P Q : Fields → Prop} {schema : Fields}

theorem Everywhere.here (h : Everywhere P schema) : P schema := by
  cases h with
  | mk here _ => exact here

theorem Everywhere.inside (h : Everywhere P schema) :
    ∀ c ∈ children schema, Everywhere P c := by
  cases h with
  | mk _ inside => exact inside

/-- A weaker condition holds everywhere as well. -/
theorem Everywhere.mono (hPQ : ∀ s, P s → Q s) (h : Everywhere P schema) :
    Everywhere Q schema := by
  induction h with
  | mk here _ ih => exact .mk (hPQ _ here) ih

/-- Something holds of a schema and of all schemas inside it, of which there are so many levels at
most. Unlike `Everywhere` this can be decided. -/
def EverywhereWithin (P : Fields → Prop) : Nat → Fields → Prop
  | 0, _ => False
  | levels + 1, schema => P schema ∧ ∀ c ∈ children schema, EverywhereWithin P levels c

instance EverywhereWithin.decidable [DecidablePred P] : ∀ levels schema,
    Decidable (EverywhereWithin P levels schema)
  | 0, _ => inferInstanceAs (Decidable False)
  | levels + 1, schema =>
    have (c : Fields) : Decidable (EverywhereWithin P levels c) := decidable levels c
    inferInstanceAs (Decidable (P schema ∧ ∀ c ∈ children schema, EverywhereWithin P levels c))

/-- Going down level by level reaches every schema. -/
theorem EverywhereWithin.everywhere : ∀ {levels : Nat} {schema : Fields},
    EverywhereWithin P levels schema → Everywhere P schema
  | _ + 1, _, ⟨here, inside⟩ => .mk here fun c hc => (inside c hc).everywhere

/-- Something holds everywhere in a document, if it is a schema. -/
def ValueEverywhere (P : Fields → Prop) : Value → Prop
  | .object schema => Everywhere P schema
  | _ => True

theorem ValueEverywhere.mono {v : Value} (hPQ : ∀ s, P s → Q s) (h : ValueEverywhere P v) :
    ValueEverywhere Q v := by
  cases v with
  | object schema => exact Everywhere.mono hPQ h
  | scalar s => trivial
  | list vs => trivial

/-! ## Values of a schema -/

theorem not_holds_null {k : String} {c : Fields} : ¬ Holds k .null c := by
  intro h
  cases h

namespace Everywhere

/-- What a keyword holds is inside the schema. -/
theorem of_holds (h : Everywhere P schema) {k : String} {c : Fields}
    (hc : Holds k (schema.value k) c) : Everywhere P c :=
  h.inside c (mem_children.mpr ⟨k, hc⟩)

/-- The schema under a keyword that holds one. -/
theorem single (h : Everywhere P schema) {k : String} (hk : k ∈ singleKeywords) :
    ValueEverywhere P (schema.value k) := by
  cases hv : schema.value k with
  | object c => exact h.of_holds (hv ▸ Holds.single hk)
  | scalar s => trivial
  | list vs => trivial

/-- The schemas under a keyword that holds them by names. -/
theorem named (h : Everywhere P schema) {k : String} (hk : k ∈ namedKeywords)
    {fields : Fields} (hv : schema.value k = .object fields) {f : Scalar × Value}
    (hf : f ∈ fields) : ValueEverywhere P f.2 := by
  obtain ⟨n, w⟩ := f
  cases w with
  | object c => exact h.of_holds (hv ▸ Holds.named hk hf)
  | scalar s => trivial
  | list vs => trivial

/-- The schemas under a keyword that lists them. -/
theorem listed (h : Everywhere P schema) {k : String} (hk : k ∈ listKeywords)
    {vs : List Value} (hv : schema.value k = .list vs) {w : Value} (hw : w ∈ vs) :
    ValueEverywhere P w := by
  cases w with
  | object c => exact h.of_holds (hv ▸ Holds.listed hk hw)
  | scalar s => trivial
  | list ws => trivial

/-- What a value under a list keyword can be walked over: schemas, or scalars only. -/
theorem walked (h : Everywhere P schema) {k : String} (hk : k ∈ listKeywords)
    {vs : List Value} (hv : (schema.value k).walk = .ok vs) {w : Value} (hw : w ∈ vs) :
    ValueEverywhere P w := by
  cases hval : schema.value k with
  | list items =>
    rw [hval] at hv
    cases hv
    exact h.listed hk hval hw
  | object fields =>
    rw [hval] at hv
    cases hv
    obtain ⟨f, -, rfl⟩ := List.mem_map.mp hw
    trivial
  | scalar s =>
    rw [hval] at hv
    cases s with
    | text t =>
      cases hv
      obtain ⟨c, -, rfl⟩ := List.mem_map.mp hw
      trivial
    | null => cases hv
    | bool b => cases hv
    | int n => cases hv
    | float x => cases hv
    | date d => cases hv
    | moment m => cases hv

end Everywhere

/-! ## Names that are referred to -/

/-- The targets of a schema's discriminator mapping are texts. -/
def TextTargets (schema : Fields) : Prop := ∀ f ∈ mappingOf schema, ∃ t, f.2 = .text t

/-- The names that a schema itself refers to belong to `S`. -/
structure OwnNames (S : String → Prop) (schema : Fields) : Prop where
  ref : ∀ r, schema.value "$ref" = .text r → S (Naming.targetName r)
  mapping : ∀ f ∈ mappingOf schema, ∀ t, f.2 = .text t → S (Naming.targetName t)

/-- The names that a schema refers to, anywhere inside it, belong to `S`. -/
abbrev InScope (S : String → Prop) : Fields → Prop := Everywhere (OwnNames S)

/-- Names that are referred to by a document, if it is a schema. -/
abbrev ValueInScope (S : String → Prop) : Value → Prop := ValueEverywhere (OwnNames S)

theorem OwnNames.mono {S T : String → Prop} (hST : ∀ n, S n → T n) (h : OwnNames S schema) :
    OwnNames T schema where
  ref := fun r hr => hST _ (h.ref r hr)
  mapping := fun f hf t ht => hST _ (h.mapping f hf t ht)

theorem ValueInScope.mono {S T : String → Prop} {v : Value} (hST : ∀ n, S n → T n)
    (h : ValueInScope S v) : ValueInScope T v :=
  ValueEverywhere.mono (fun _ hs => hs.mono hST) h

/-- A target is the last part of a text. -/
theorem targetOf_eq_ok {v : Value} {n : String} (h : Naming.targetOf v = .ok n) :
    ∃ t, v = .text t ∧ n = Naming.targetName t := by
  unfold Naming.targetOf at h
  split at h
  · cases h
    exact ⟨_, rfl, rfl⟩
  · cases h

theorem targetOf_eq_error {v : Value} {e : Fault} (h : Naming.targetOf v = .error e) :
    e = .noMember := by
  unfold Naming.targetOf at h
  split at h
  · cases h
  · cases h
    rfl

/-- **The names that are found are all that the schema refers to itself.** -/
theorem ownNames_of_ok {own : List String} (h : ownNames schema = .ok own) :
    OwnNames (· ∈ own) schema := by
  obtain ⟨mapped, hm, h⟩ := Outcome.bind_eq_ok.mp h
  cases h
  refine ⟨fun r hr => ?_, fun f hf t ht => ?_⟩
  · rw [hr]
    exact List.mem_append_left _ List.mem_cons_self
  · obtain ⟨n, hn, hfn⟩ := Outcome.exists_right_of_mem (Outcome.forall₂_of_mapM hm) hf
    rw [ht] at hfn
    cases hfn
    exact List.mem_append_right _ hn

/-- They can be found if every target of its mapping is a text. -/
theorem ownNames_ok_iff : (∃ own, ownNames schema = .ok own) ↔ TextTargets schema := by
  constructor
  · rintro ⟨own, h⟩ f hf
    obtain ⟨mapped, hm, -⟩ := Outcome.bind_eq_ok.mp h
    obtain ⟨n, -, hfn⟩ := Outcome.exists_right_of_mem (Outcome.forall₂_of_mapM hm) hf
    obtain ⟨t, ht, -⟩ := targetOf_eq_ok hfn
    exact ⟨t, ht⟩
  · intro h
    have htargets : ∀ f ∈ mappingOf schema, ∃ n, Naming.targetOf f.2 = .ok n := by
      intro f hf
      obtain ⟨t, ht⟩ := h f hf
      rw [ht]
      exact ⟨_, rfl⟩
    obtain ⟨mapped, hm⟩ := Outcome.exists_mapM_of_forall htargets
    exact ⟨_, Outcome.bind_eq_ok.mpr ⟨mapped, hm, rfl⟩⟩

/-! ## Size of subschemas -/

/-- The size of the schemas on a stack. -/
def stackWeight : List Fields → Nat
  | [] => 0
  | schema :: stack => Value.weight (.object schema) + stackWeight stack

theorem stackWeight_append : ∀ l l' : List Fields,
    stackWeight (l ++ l') = stackWeight l + stackWeight l'
  | [], l' => by simp [stackWeight]
  | schema :: l, l' => by
    rw [List.cons_append, stackWeight, stackWeight, stackWeight_append l l']
    omega

theorem stackWeight_singleton (schema : Fields) :
    stackWeight [schema] = Value.weight (.object schema) := by
  simp [stackWeight]

theorem stackWeight_named (path : String) (v : Value) :
    stackWeight ((namedSchemas path v).map (·.schema)) ≤ v.weight := by
  cases v with
  | object fields =>
    have hle : ∀ fields : Fields,
        stackWeight ((namedSchemas path (.object fields)).map (·.schema)) ≤
          Fields.weight fields := by
      intro fields
      induction fields with
      | nil => simp [namedSchemas, stackWeight]
      | cons f fields ih =>
        obtain ⟨n, w⟩ := f
        rw [Fields.weight]
        cases w with
        | object schema =>
          have hcons : (namedSchemas path (.object ((n, .object schema) :: fields))).map (·.schema) =
              [schema] ++ (namedSchemas path (.object fields)).map (·.schema) := rfl
          rw [hcons, stackWeight_append, stackWeight_singleton]
          omega
        | scalar s => exact Nat.le_add_left_of_le ih
        | list vs => exact Nat.le_add_left_of_le ih
    rw [Value.weight]
    exact Nat.le_add_left_of_le (hle fields)
  | scalar s => simp [namedSchemas, stackWeight]
  | list vs => simp [namedSchemas, stackWeight]

theorem stackWeight_listed (path : String) : ∀ (index : Nat) (vs : List Value),
    stackWeight ((listedSchemas path index vs).map (·.schema)) ≤ Value.weightAll vs
  | _, [] => by simp [listedSchemas, stackWeight]
  | index, .object schema :: vs => by
    have ih := stackWeight_listed path (index + 1) vs
    have hcons : (listedSchemas path index (.object schema :: vs)).map (·.schema) =
        [schema] ++ (listedSchemas path (index + 1) vs).map (·.schema) := by simp [listedSchemas]
    rw [hcons, stackWeight_append, stackWeight_singleton, Value.weightAll]
    omega
  | index, .scalar s :: vs => by
    have ih := stackWeight_listed path (index + 1) vs
    rw [Value.weightAll]
    exact Nat.le_add_left_of_le ih
  | index, .list items :: vs => by
    have ih := stackWeight_listed path (index + 1) vs
    rw [Value.weightAll]
    exact Nat.le_add_left_of_le ih

theorem stackWeight_single (path : String) (allowed : Bool) (v : Value) :
    stackWeight ((singleSchema path allowed v).map (·.schema)) ≤ v.weight := by
  cases v with
  | object fields => simp [singleSchema, stackWeight]
  | scalar s => simp [singleSchema, stackWeight]
  | list vs =>
    cases allowed with
    | true =>
      rw [Value.weight]
      exact Nat.le_add_left_of_le (stackWeight_listed path 0 vs)
    | false => simp [singleSchema, stackWeight]

theorem stackWeight_schemaList (path : String) (v : Value) :
    stackWeight ((schemaList path v).map (·.schema)) ≤ v.weight := by
  cases v with
  | object fields => simp [schemaList, stackWeight]
  | scalar s => simp [schemaList, stackWeight]
  | list vs =>
    rw [Value.weight]
    exact Nat.le_add_left_of_le (stackWeight_listed path 0 vs)

/-- What the values under some keywords hold takes up no more than these values. -/
theorem stackWeight_flatMap (schema : Fields) (held : String → Value → List Located)
    (hnull : ∀ k, held k .null = [])
    (hheld : ∀ k v, stackWeight ((held k v).map (·.schema)) ≤ v.weight) : ∀ keywords : List String,
    stackWeight ((keywords.flatMap fun k => held k (schema.value k)).map (·.schema)) ≤
      schema.weightsAt keywords
  | [] => by simp [stackWeight]
  | k :: keywords => by
    have ih := stackWeight_flatMap schema held hnull hheld keywords
    have hk : stackWeight ((held k (schema.value k)).map (·.schema)) ≤ schema.weightAt k := by
      by_cases hhas : schema.has k = true
      · exact (hheld k _).trans (Fields.weight_value_le hhas)
      · -- a keyword that is not there weighs nothing, but null in its place would
        rw [Fields.value_eq_null hhas, hnull]
        simp [stackWeight]
    rw [List.flatMap_cons, List.map_append, stackWeight_append, Fields.weightsAt]
    omega

/-- **The direct subschemas of a schema take up no more than its fields.** -/
theorem stackWeight_children (schema : Fields) :
    stackWeight (children schema) ≤ Fields.weight schema := by
  have hnamed := stackWeight_flatMap schema (fun k v => namedSchemas ("#" ++ "/" ++ k) v)
    (fun _ => rfl) (fun _ _ => stackWeight_named _ _) namedKeywords
  have hsingle := stackWeight_flatMap schema
    (fun k v => singleSchema ("#" ++ "/" ++ k) (k == "items") v)
    (fun _ => rfl) (fun _ _ => stackWeight_single _ _ _) singleKeywords
  have hlist := stackWeight_flatMap schema (fun k v => schemaList ("#" ++ "/" ++ k) v)
    (fun _ => rfl) (fun _ _ => stackWeight_schemaList _ _) listKeywords
  have hsum := Fields.weightsAt_le schema
    (show (namedKeywords ++ singleKeywords ++ listKeywords).Nodup by decide)
  rw [Fields.weightsAt_append, Fields.weightsAt_append] at hsum
  unfold children subschemas
  rw [List.map_append, List.map_append, stackWeight_append, stackWeight_append]
  exact (Nat.add_le_add (Nat.add_le_add hnamed hsingle) hlist).trans hsum

/-! ## The walk -/

theorem mem_addNew {b : String} : ∀ {ns found : List String},
    b ∈ addNew found ns ↔ b ∈ found ∨ b ∈ ns
  | [], found => by simp [addNew]
  | n :: ns, found => by
    rw [addNew, mem_addNew]
    by_cases hn : found.contains n = true
    · have hn' : n ∈ found := by simpa using hn
      rw [if_pos hn, List.mem_cons]
      constructor
      · rintro (h | h)
        · exact Or.inl h
        · exact Or.inr (Or.inr h)
      · rintro (h | rfl | h)
        · exact Or.inl h
        · exact Or.inl hn'
        · exact Or.inr h
    · rw [if_neg hn, List.mem_append, List.mem_singleton, List.mem_cons, or_assoc]

/-- Replacing a schema by those inside makes the stack lighter. -/
theorem stackWeight_step (schema : Fields) (stack : List Fields) :
    stackWeight (children schema ++ stack) < stackWeight (schema :: stack) := by
  have hchildren := stackWeight_children schema
  have hcons : stackWeight (schema :: stack) =
      (1 + Fields.weight schema) + stackWeight stack := by
    simp [stackWeight, Value.weight]
  rw [stackWeight_append, hcons]
  omega

/-- **The names that the walk collects are a scope of every schema on its stack.** -/
theorem collect_scope : ∀ {fuel : Nat} {stack : List Fields} {found result : List String},
    stackWeight stack ≤ fuel → collect fuel stack found = .ok result →
    found ⊆ result ∧ ∀ s ∈ stack, InScope (· ∈ result) s
  | 0, [], found, result, _, h => by
    cases h
    exact ⟨List.Subset.refl _, fun _ hs => absurd hs List.not_mem_nil⟩
  | 0, schema :: stack, found, result, hfuel, _ => by
    have := stackWeight_step schema stack
    omega
  | fuel + 1, [], found, result, _, h => by
    cases h
    exact ⟨List.Subset.refl _, fun _ hs => absurd hs List.not_mem_nil⟩
  | fuel + 1, schema :: stack, found, result, hfuel, h => by
    obtain ⟨own, hown, h⟩ := Outcome.bind_eq_ok.mp h
    -- the walk puts the subschemas on the stack, and still the stack gets lighter
    have hstep := stackWeight_step schema stack
    obtain ⟨hsub, hstack⟩ := collect_scope (by omega) h
    refine ⟨fun b hb => hsub (mem_addNew.mpr (Or.inl hb)), fun s hs => ?_⟩
    rcases List.mem_cons.mp hs with rfl | hs
    · refine .mk ((ownNames_of_ok hown).mono fun n hn => ?_) fun c hc => ?_
      · exact hsub (mem_addNew.mpr (Or.inr hn))
      · exact hstack c (List.mem_append_left _ hc)
    · exact hstack s (List.mem_append_right _ hs)

/-- The walk fails only because of a mapping target that is no text. -/
theorem collect_ok_iff : ∀ (fuel : Nat) (stack : List Fields) (found : List String),
    stackWeight stack ≤ fuel →
    ((∃ result, collect fuel stack found = .ok result) ↔
      ∀ s ∈ stack, Everywhere TextTargets s)
  | 0, [], found, _ => by simp [collect]
  | 0, schema :: stack, found, hfuel => by
    have := stackWeight_step schema stack
    omega
  | fuel + 1, [], found, _ => by simp [collect]
  | fuel + 1, schema :: stack, found, hfuel => by
    have hstep := stackWeight_step schema stack
    constructor
    · rintro ⟨result, h⟩ s hs
      obtain ⟨own, hown, h⟩ := Outcome.bind_eq_ok.mp h
      have hall := (collect_ok_iff fuel _ _ (by omega)).mp ⟨result, h⟩
      rcases List.mem_cons.mp hs with rfl | hs
      · exact .mk (ownNames_ok_iff.mp ⟨own, hown⟩)
          fun c hc => hall c (List.mem_append_left _ hc)
      · exact hall s (List.mem_append_right _ hs)
    · intro hall
      have hschema := hall schema List.mem_cons_self
      obtain ⟨own, hown⟩ := ownNames_ok_iff.mpr hschema.here
      have hrest : ∀ s ∈ children schema ++ stack, Everywhere TextTargets s := by
        intro s hs
        rcases List.mem_append.mp hs with hs | hs
        · exact hschema.inside s hs
        · exact hall s (List.mem_cons_of_mem _ hs)
      obtain ⟨result, hr⟩ := (collect_ok_iff fuel _ (addNew found own) (by omega)).mpr hrest
      exact ⟨result, Outcome.bind_eq_ok.mpr ⟨own, hown, hr⟩⟩

theorem ownNames_eq_error {e : Fault} (h : ownNames schema = .error e) : e = .noMember := by
  unfold ownNames at h
  cases hm : (mappingOf schema).mapM (fun f => Naming.targetOf f.2) with
  | ok mapped =>
    rw [hm] at h
    cases h
  | error e' =>
    rw [hm] at h
    cases h
    by_cases hall : ∀ f ∈ mappingOf schema, ∃ n, Naming.targetOf f.2 = .ok n
    · obtain ⟨r, hr⟩ := Outcome.exists_mapM_of_forall hall
      rw [hr] at hm
      cases hm
    · push Not at hall
      have herr := Outcome.mapM_eq_error (fun f e' => @targetOf_eq_error f.2 e') hall
      rw [herr] at hm
      cases hm
      rfl

theorem collect_eq_error : ∀ (fuel : Nat) {stack : List Fields} {found : List String} {e : Fault},
    collect fuel stack found = .error e → e = .noMember
  | 0, _, _, _, h => by cases h
  | _ + 1, [], _, _, h => by cases h
  | fuel + 1, schema :: stack, found, e, h => by
    rw [collect] at h
    cases hown : ownNames schema with
    | error e' =>
      rw [hown] at h
      cases h
      exact ownNames_eq_error hown
    | ok own =>
      rw [hown] at h
      exact collect_eq_error fuel h

/-! ## The names of a document -/

/-- All mapping targets inside a document are texts. -/
def ValueTextTargets : Value → Prop
  | .object schema => Everywhere TextTargets schema
  | _ => True

/-- **The names that a document refers to are a scope of it.** -/
theorem names_scope {v : Value} {found : List String} (h : names v = .ok found) :
    ValueInScope (· ∈ found) v := by
  cases v with
  | object schema =>
    exact (collect_scope (Nat.le_of_eq (stackWeight_singleton schema)) h).2 schema
      List.mem_cons_self
  | scalar s => trivial
  | list vs => trivial

/-- **The names of a document can be found if every target in it is a text.** -/
theorem names_ok_iff {v : Value} : (∃ found, names v = .ok found) ↔ ValueTextTargets v := by
  cases v with
  | object schema =>
    have h := collect_ok_iff _ _ [] (Nat.le_of_eq (stackWeight_singleton schema))
    simpa [names, ValueTextTargets] using h
  | scalar s => simp [names, ValueTextTargets]
  | list vs => simp [names, ValueTextTargets]

/-- Otherwise the fault is always the same. -/
theorem names_eq_error {v : Value} {e : Fault} (h : names v = .error e) : e = .noMember := by
  cases v with
  | object schema => exact collect_eq_error _ h
  | scalar s => cases h
  | list vs => cases h

end SchemaForge.Reference
