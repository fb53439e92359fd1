import SchemaForge.Proofs.Reference.Graph
import SchemaForge.Reference.Alias

/-!
# Chains of aliases

An alias refers to what it names, so a step along a chain of aliases is an edge of the reference
graph, and a chain leads to a schema that its start reaches.

A chain that runs into no cycle ends in the same way wherever on it one starts: the names met so far
stop it only if it comes back to one of them, and the fuel lasts, since the names met are distinct
names of schemas.
-/

namespace SchemaForge.Reference

open Relation

variable {schemas : Fields} {names : List String} {a b n r : String}

/-! ## Steps -/

/-- The parts of a schema that is an alias: its single branch has the reference. -/
theorem aliasTarget?_eq_some {v ref : Value} (h : aliasTarget? v = some ref) :
    ∃ schema branch : Fields, v = .object schema ∧ schema.has "properties" = false ∧
      schema.value "allOf" = .list [.object branch] ∧ branch.get? "$ref" = some ref := by
  cases v with
  | object schema =>
    unfold aliasTarget? at h
    dsimp only at h
    split at h
    · cases h
    · rename_i hkeys
      split at h
      · rename_i branch hbranch
        refine ⟨schema, branch, rfl, ?_, hbranch, h⟩
        simp only [Bool.or_eq_true, not_or, Bool.not_eq_true] at hkeys
        exact hkeys.1.1
      · cases h
  | scalar s => cases h
  | list vs => cases h

/-- A schema is an alias that names another one. -/
def AliasStep (schemas : Fields) (a b : String) : Prop :=
  ∃ t, aliasTarget? (schemas.value a) = some (.text t) ∧ Naming.targetName t = b

/-- The branch of an alias refers to what it names. -/
theorem aliasStep_scope {S : String → Prop} (h : ValueInScope S (schemas.value a))
    (hab : AliasStep schemas a b) : S b := by
  obtain ⟨t, ht, rfl⟩ := hab
  obtain ⟨schema, branch, hv, -, hbranch, href⟩ := aliasTarget?_eq_some ht
  rw [hv] at h
  have hin : ValueInScope S (.object branch) :=
    Everywhere.listed h (by decide) hbranch List.mem_cons_self
  exact hin.here.ref t (Fields.value_of_get? href)

/-! ## Chains -/

/-- **A chain of aliases is a way along steps.** -/
theorem followAlias_reaches : ∀ {fuel : Nat} {seen : List String} {n : String},
    followAlias schemas fuel seen n = .ok r →
    ReflTransGen (fun a b => AliasStep schemas a b ∧ schemas.has b = true) n r
  | 0, _, _, h => by
    cases h
    exact .refl
  | fuel + 1, seen, n, h => by
    unfold followAlias at h
    split at h
    · cases h
      exact .refl
    · rename_i ref href
      obtain ⟨target, htarget, h⟩ := Outcome.bind_eq_ok.mp h
      obtain ⟨t, rfl, rfl⟩ := targetOf_eq_ok htarget
      split at h
      · cases h
        exact .refl
      · rename_i hgo
        have hhas : schemas.has (Naming.targetName t) = true := by
          simp only [Bool.or_eq_true, not_or, Bool.not_eq_true, Bool.not_eq_false'] at hgo
          exact hgo.2
        exact .head ⟨⟨t, href, rfl⟩, hhas⟩ (followAlias_reaches h)

/-- A chain of aliases that never comes back to a name it has met. -/
def AliasFree (schemas : Fields) (n : String) : Prop :=
  ∀ m, ReflTransGen (AliasStep schemas) n m → ¬ TransGen (AliasStep schemas) m m

theorem AliasFree.step (h : AliasFree schemas a) (hab : AliasStep schemas a b) :
    AliasFree schemas b :=
  fun m hm => h m (.head hab hm)

theorem AliasStep.unique {c : String} (hab : AliasStep schemas a b) (hac : AliasStep schemas a c) :
    b = c := by
  obtain ⟨t, ht, rfl⟩ := hab
  obtain ⟨t', ht', rfl⟩ := hac
  rw [ht] at ht'
  cases ht'
  rfl

/-- The chain of a schema that is no alias. -/
theorem aliasFree_of_not_step (h : ∀ b, ¬ AliasStep schemas a b) : AliasFree schemas a := by
  intro m hm hcycle
  rcases ReflTransGen.cases_head hm with rfl | ⟨b, hab, -⟩
  · obtain ⟨b, hab, -⟩ := TransGen.head'_iff.mp hcycle
    exact h b hab
  · exact h b hab

theorem aliasFree_of_step (hab : AliasStep schemas a b) (hb : AliasFree schemas b) :
    AliasFree schemas a := by
  intro m hm hcycle
  rcases ReflTransGen.cases_head hm with rfl | ⟨c, hac, hcm⟩
  · obtain ⟨c, hac, hca⟩ := TransGen.head'_iff.mp hcycle
    rw [← hab.unique hac] at hca
    exact hb _ hca hcycle
  · rw [← hab.unique hac] at hcm
    exact hb m hcm hcycle

/-- What a chain has met at a name, and the fuel that is left for the rest. -/
structure Met (schemas : Fields) (names : List String) (fuel : Nat) (seen : List String)
    (n : String) : Prop where
  behind : ∀ m ∈ seen, ReflTransGen (AliasStep schemas) m n
  distinct : seen.Nodup
  known : seen ⊆ names
  enough : names.length < fuel + seen.length

theorem Met.fuel_pos {fuel : Nat} {seen : List String} (h : Met schemas names fuel seen n) :
    0 < fuel := by
  have hle := (h.distinct.subperm h.known).length_le
  have := h.enough
  omega

theorem Met.not_mem {fuel : Nat} {seen : List String} (h : Met schemas names fuel seen a)
    (hfree : AliasFree schemas a) (hab : AliasStep schemas a b) : b ∉ seen := by
  intro hb
  exact hfree a .refl (TransGen.head' hab (h.behind b hb))

theorem Met.next {fuel : Nat} {seen : List String} (h : Met schemas names (fuel + 1) seen a)
    (hfree : AliasFree schemas a) (hab : AliasStep schemas a b) (hb : b ∈ names) :
    Met schemas names fuel (b :: seen) b where
  behind := by
    intro m hm
    rcases List.mem_cons.mp hm with rfl | hm
    · exact .refl
    · exact (h.behind m hm).tail hab
  distinct := List.nodup_cons.mpr ⟨h.not_mem hfree hab, h.distinct⟩
  known := List.cons_subset.mpr ⟨hb, h.known⟩
  enough := by
    have := h.enough
    rw [List.length_cons]
    omega

/-- One step of a chain that runs into no cycle. -/
theorem followAlias_step {fuel : Nat} {seen : List String} {t : String}
    (h : Met schemas names (fuel + 1) seen a) (hfree : AliasFree schemas a)
    (ht : aliasTarget? (schemas.value a) = some (.text t)) :
    followAlias schemas (fuel + 1) seen a =
      if schemas.has (Naming.targetName t) then
        followAlias schemas fuel (Naming.targetName t :: seen) (Naming.targetName t)
      else .ok a := by
  have hnot : seen.contains (Naming.targetName t) = false := by
    simpa using h.not_mem hfree ⟨t, ht, rfl⟩
  rw [followAlias, ht]
  change (if (seen.contains (Naming.targetName t) || !schemas.has (Naming.targetName t)) = true
    then _ else _) = _
  rw [hnot, Bool.false_or]
  cases schemas.has (Naming.targetName t) <;> rfl

/-- **Where a chain without a cycle ends does not depend on what it has met.** -/
theorem followAlias_congr (hnamed : Named schemas names) : ∀ {fuel fuel' : Nat}
    {seen seen' : List String} {n : String}, Met schemas names fuel seen n →
    Met schemas names fuel' seen' n → AliasFree schemas n →
    followAlias schemas fuel seen n = followAlias schemas fuel' seen' n
  | 0, _, _, _, _, h, _, _ => absurd h.fuel_pos (Nat.lt_irrefl 0)
  | _ + 1, 0, _, _, _, _, h', _ => absurd h'.fuel_pos (Nat.lt_irrefl 0)
  | fuel + 1, fuel' + 1, seen, seen', n, h, h', hfree => by
    cases ha : aliasTarget? (schemas.value n) with
    | none => rw [followAlias, followAlias, ha]
    | some ref =>
      by_cases htext : ∃ t, ref = .text t
      · obtain ⟨t, rfl⟩ := htext
        have hstep : AliasStep schemas n (Naming.targetName t) := ⟨t, ha, rfl⟩
        rw [followAlias_step h hfree ha, followAlias_step h' hfree ha]
        by_cases hhas : schemas.has (Naming.targetName t) = true
        · have hmem := hnamed.has_iff.mp hhas
          rw [if_pos hhas, if_pos hhas]
          exact followAlias_congr hnamed (h.next hfree hstep hmem) (h'.next hfree hstep hmem)
            (hfree.step hstep)
        · rw [if_neg hhas, if_neg hhas]
      · cases htarget : Naming.targetOf ref with
        | ok target =>
          obtain ⟨t, ht, -⟩ := targetOf_eq_ok htarget
          exact absurd ⟨t, ht⟩ htext
        | error e =>
          rw [followAlias, followAlias, ha]
          dsimp only
          rw [htarget]
          rfl

theorem Named.met (hnamed : Named schemas names) (hn : n ∈ names) :
    Met schemas names (schemas.length + 1) [n] n where
  behind := by
    intro m hm
    rw [List.mem_singleton.mp hm]
  distinct := List.nodup_singleton n
  known := List.cons_subset.mpr ⟨hn, List.nil_subset _⟩
  enough := by
    have hlength : schemas.length = names.length := by
      have htexts : schemas.map (·.1) = names.map Scalar.text := hnamed.texts
      simpa using congrArg List.length htexts
    rw [hlength, List.length_singleton]
    omega

/-- **An alias and the schema it names stand for the same schema, unless there is a cycle.** -/
theorem resolveAlias_step (hnamed : Named schemas names) (ha : a ∈ names)
    (hfree : AliasFree schemas a) (hab : AliasStep schemas a b) (hb : schemas.has b = true) :
    resolveAlias schemas a = resolveAlias schemas b := by
  obtain ⟨t, ht, rfl⟩ := hab
  have hstep : AliasStep schemas a (Naming.targetName t) := ⟨t, ht, rfl⟩
  have hmem := hnamed.has_iff.mp hb
  unfold resolveAlias
  rw [followAlias_step (hnamed.met ha) hfree ht, if_pos hb]
  exact followAlias_congr hnamed ((hnamed.met ha).next hfree hstep hmem) (hnamed.met hmem)
    (hfree.step hstep)

/-! ## Chains in the reference graph -/

namespace Graph

variable {g : Graph}

/-- **What an alias stands for is a schema that it reaches.** -/
theorem Describes.resolveAlias (h : g.Describes schemas names) (hnamed : Named schemas names)
    (hn : n ∈ names) (hr : Reference.resolveAlias schemas n = .ok r) :
    g.Reaches n r ∧ r ∈ names := by
  have hchain := followAlias_reaches hr
  clear hr
  induction hchain with
  | refl => exact ⟨.refl, hn⟩
  | tail _ hstep ih =>
    obtain ⟨hreach, hmem⟩ := ih
    have hedge := aliasStep_scope (h.scope hmem) hstep.1 hstep.2
    exact ⟨hreach.tail hedge, hnamed.has_iff.mp hstep.2⟩

end Graph

end SchemaForge.Reference
