import SchemaForge.Proofs.Reference.Scope
import SchemaForge.Specification

/-!
# Checked references

Before anything is compiled, a walk checks that the references of all named schemas point to schemas.
It keeps a stack, as the walk that collects the names of references does, and tells places as well;
but it goes through the same schemas. So it accepts exactly the specifications in which, in every
named schema and in every schema inside it, the reference and the targets of the discriminator
mapping are names of schemas.
-/

namespace SchemaForge.Specification

open Reference

variable {schemas schema : Fields} {owner : Scalar}

/-! ## Places -/

theorem map_schema_listedSchemas (path path' : String) : ∀ (index : Nat) (vs : List Value),
    (listedSchemas path index vs).map (·.schema) = (listedSchemas path' index vs).map (·.schema)
  | _, [] => rfl
  | index, .object schema :: vs => by
    rw [listedSchemas, listedSchemas, List.map_cons, List.map_cons,
      map_schema_listedSchemas path path']
  | index, .scalar s :: vs => map_schema_listedSchemas path path' (index + 1) vs
  | index, .list items :: vs => map_schema_listedSchemas path path' (index + 1) vs

/-- **The subschemas of a schema are the same wherever it stands.** -/
theorem map_schema_subschemas (schema : Fields) (path : String) :
    (subschemas schema path).map (·.schema) = children schema := by
  have hnamed : ∀ (path path' : String) (v : Value),
      (namedSchemas path v).map (·.schema) = (namedSchemas path' v).map (·.schema) := by
    intro path path' v
    cases v with
    | object fields =>
      unfold namedSchemas
      rw [List.map_filterMap, List.map_filterMap]
      congr 1
      funext f
      obtain ⟨n, w⟩ := f
      cases w <;> rfl
    | scalar s => rfl
    | list vs => rfl
  have hsingle : ∀ (path path' : String) (allowed : Bool) (v : Value),
      (singleSchema path allowed v).map (·.schema) =
        (singleSchema path' allowed v).map (·.schema) := by
    intro path path' allowed v
    cases v with
    | object fields => rfl
    | scalar s => rfl
    | list vs =>
      cases allowed with
      | true => exact map_schema_listedSchemas path path' 0 vs
      | false => rfl
  have hlist : ∀ (path path' : String) (v : Value),
      (schemaList path v).map (·.schema) = (schemaList path' v).map (·.schema) := by
    intro path path' v
    cases v with
    | list vs => exact map_schema_listedSchemas path path' 0 vs
    | scalar s => rfl
    | object fields => rfl
  unfold children subschemas
  simp only [List.map_append, List.map_flatMap]
  congr 1
  · congr 1
    · exact List.flatMap_congr fun k _ => hnamed _ _ _
    · exact List.flatMap_congr fun k _ => hsingle _ _ _ _
  · exact List.flatMap_congr fun k _ => hlist _ _ _

/-! ## Single schemas -/

/-- The reference of a schema and the targets of its mapping are names of schemas. -/
structure Resolves (schemas schema : Fields) : Prop
    extends OwnNames (fun n => schemas.has n = true) schema where
  texts : TextTargets schema

theorem checkOwn_ok_iff {place : Located} :
    checkOwn schemas owner place = .ok () ↔
      ∀ r, place.schema.value "$ref" = .text r → schemas.has (Naming.targetName r) = true := by
  unfold checkOwn
  split
  · rename_i ref href
    rw [href]
    split
    · rename_i hknown
      refine ⟨fun _ r hr => ?_, fun _ => rfl⟩
      cases hr
      exact hknown
    · rename_i hunknown
      exact ⟨nofun, fun h => absurd (h ref rfl) hunknown⟩
  · rename_i hnone
    exact ⟨fun _ r hr => absurd hr (hnone r), fun _ => rfl⟩

theorem checkMapping_ok_iff {path : String} : ∀ {targets : Fields},
    checkMapping schemas owner path targets = .ok () ↔
      ∀ f ∈ targets, ∃ t, f.2 = .text t ∧ schemas.has (Naming.targetName t) = true
  | [] => by simp [checkMapping]
  | (value, target) :: rest => by
    have hnot : (∀ t, target ≠ .text t) →
        checkMapping schemas owner path ((value, target) :: rest) = .error (.fault .noMember) := by
      intro hno
      rw [checkMapping]
      rintro _ t ⟨⟩
      exact hno t rfl
    by_cases htext : ∃ t, target = .text t
    · obtain ⟨t, rfl⟩ := htext
      rw [checkMapping, List.forall_mem_cons]
      split
      · rename_i hknown
        rw [checkMapping_ok_iff]
        exact ⟨fun h => ⟨⟨t, rfl, hknown⟩, h⟩, fun h => h.2⟩
      · rename_i hunknown
        refine ⟨nofun, ?_⟩
        rintro ⟨⟨t', ht, hknown⟩, -⟩
        cases ht
        exact absurd hknown hunknown
    · push Not at htext
      rw [hnot htext, List.forall_mem_cons]
      refine ⟨nofun, ?_⟩
      rintro ⟨⟨t, ht, -⟩, -⟩
      exact absurd ht (htext t)

theorem resolves_iff {place : Located} :
    Resolves schemas place.schema ↔ checkOwn schemas owner place = .ok () ∧
      checkMapping schemas owner place.path (mappingOf place.schema) = .ok () := by
  rw [checkOwn_ok_iff, checkMapping_ok_iff]
  constructor
  · rintro ⟨⟨href, hmapping⟩, htexts⟩
    refine ⟨href, fun f hf => ?_⟩
    obtain ⟨t, ht⟩ := htexts f hf
    exact ⟨t, ht, hmapping f hf t ht⟩
  · rintro ⟨href, hall⟩
    refine ⟨⟨href, fun f hf t ht => ?_⟩, fun f hf => ?_⟩
    · obtain ⟨t', ht', hknown⟩ := hall f hf
      rw [ht] at ht'
      cases ht'
      exact hknown
    · obtain ⟨t, ht, -⟩ := hall f hf
      exact ⟨t, ht⟩

/-! ## The walk -/

/-- **The walk accepts the schemas on its stack if all references in them can be resolved.** -/
theorem checkStack_ok_iff : ∀ (fuel : Nat) (stack : List Located),
    stackWeight (stack.map (·.schema)) ≤ fuel →
    (checkStack schemas owner fuel stack = .ok () ↔
      ∀ place ∈ stack, Everywhere (Resolves schemas) place.schema)
  | 0, [], _ => by simp [checkStack]
  | 0, place :: stack, hfuel => by
    have := stackWeight_step place.schema (stack.map (·.schema))
    rw [List.map_cons] at hfuel
    omega
  | fuel + 1, [], _ => by simp [checkStack]
  | fuel + 1, place :: stack, hfuel => by
    -- the subschemas go on the stack, and still the stack gets lighter
    have hstep := stackWeight_step place.schema (stack.map (·.schema))
    have hnext : (subschemas place.schema place.path ++ stack).map (·.schema) =
        children place.schema ++ stack.map (·.schema) := by
      rw [List.map_append, map_schema_subschemas]
    have ih := checkStack_ok_iff fuel (subschemas place.schema place.path ++ stack)
      (by rw [hnext]; rw [List.map_cons] at hfuel; omega)
    have hsubschemas : (∀ p ∈ subschemas place.schema place.path,
          Everywhere (Resolves schemas) p.schema) ↔
        ∀ c ∈ children place.schema, Everywhere (Resolves schemas) c := by
      rw [← map_schema_subschemas place.schema place.path, List.forall_mem_map]
    have hplace : Everywhere (Resolves schemas) place.schema ↔
        Resolves schemas place.schema ∧
          ∀ c ∈ children place.schema, Everywhere (Resolves schemas) c :=
      ⟨fun h => ⟨h.here, h.inside⟩, fun h => .mk h.1 h.2⟩
    have hrun : checkStack schemas owner (fuel + 1) (place :: stack) = .ok () ↔
        (checkOwn schemas owner place = .ok () ∧
          checkMapping schemas owner place.path (mappingOf place.schema) = .ok ()) ∧
        checkStack schemas owner fuel (subschemas place.schema place.path ++ stack) = .ok () := by
      rw [checkStack]
      constructor
      · intro h
        obtain ⟨⟨⟩, hown, h⟩ := Outcome.bind_eq_ok.mp h
        obtain ⟨⟨⟩, hmapping, h⟩ := Outcome.bind_eq_ok.mp h
        exact ⟨⟨hown, hmapping⟩, h⟩
      · rintro ⟨⟨hown, hmapping⟩, h⟩
        rw [hown, hmapping]
        exact h
    rw [hrun, ← resolves_iff, ih, List.forall_mem_cons, hplace, List.forall_mem_append,
      hsubschemas, and_assoc]

/-- **The check accepts exactly the specifications whose references can all be resolved.** -/
theorem checkReferences_ok_iff :
    checkReferences schemas = .ok () ↔ ∀ f ∈ schemas, ValueEverywhere (Resolves schemas) f.2 := by
  have hschema : ∀ (owner : Scalar) (v : Value), checkSchema schemas owner v = .ok () ↔
      ValueEverywhere (Resolves schemas) v := by
    intro owner v
    cases v with
    | object schema =>
      have hfuel := Nat.le_of_eq (stackWeight_singleton schema)
      rw [checkSchema, checkStack_ok_iff _ [_] hfuel, List.forall_mem_singleton]
      rfl
    | scalar s => exact ⟨fun _ => trivial, fun _ => rfl⟩
    | list vs => exact ⟨fun _ => trivial, fun _ => rfl⟩
  rw [checkReferences, Outcome.forM_eq_ok]
  exact forall_congr' fun f => imp_congr_right fun _ => hschema f.1 f.2

/-- Then all references stay inside the specification. -/
theorem scope_of_checked (h : checkReferences schemas = .ok ()) {f : Scalar × Value}
    (hf : f ∈ schemas) : ValueInScope (fun n => schemas.has n = true) f.2 :=
  ValueEverywhere.mono (fun _ hs => hs.toOwnNames) (checkReferences_ok_iff.mp h f hf)

end SchemaForge.Specification
