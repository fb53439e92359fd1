import Mathlib.Data.List.Chain
import SchemaForge.Proofs.Reference.Alias

/-!
# What an alias stands for

A chain of aliases is followed in rounds. Each round goes on to a schema that the chain has not met,
so the schemas not met become fewer and the rounds come to an end, cycle or not
(`wellFounded_round`); `resolveAlias` allows for as many rounds as there can be
(`exists_followAlias`).

The names met are a way along aliases that comes to no name twice (`AliasWay`, by `AliasWay.round`
and `way_of_rounds`). Where there is no cycle, the rounds can only have ended because the last
schema is no alias, or one for a schema that is missing; then it stands for itself.
-/

namespace SchemaForge.Reference

open Relation

variable {schemas : Fields} {a b n r : String} {met met' : List String}

/-- The aliases among the schemas have texts as references. -/
def TextReferences (schemas : Fields) : Prop :=
  ∀ f ∈ schemas, ∀ ref ∈ aliasTarget? f.2, ref.isText = true

theorem TextReferences.exists_text (h : TextReferences schemas) {ref : Value}
    (ha : aliasTarget? (schemas.value a) = some ref) : ∃ t, ref = .text t := by
  obtain ⟨schema, -, hschema, -⟩ := aliasTarget?_eq_some ha
  have hknown : schemas.has a = true := Fields.has_of_value_ne (by simp [hschema])
  have htext := h _ (Fields.mem_of_get? (Fields.get?_of_has hknown)) ref ha
  cases ref with
  | scalar s =>
    cases s with
    | text t => exact ⟨t, rfl⟩
    | _ => cases htext
  | list vs => cases htext
  | object fs => cases htext

/-! ## Rounds -/

/-- One round: the schema that was met last is an alias for one that was not met. The names met have
the last one first. -/
inductive AliasRound (schemas : Fields) : List String → List String → Prop where
  | next {a b : String} {met : List String} (step : AliasStep schemas a b) (fresh : b ∉ a :: met)
      (known : schemas.has b = true) : AliasRound schemas (a :: met) (b :: a :: met)

/-- **A round leaves fewer schemas that were not met.** -/
theorem AliasRound.unmet_lt (h : AliasRound schemas met met') :
    (unmet (textNames schemas) met').length < (unmet (textNames schemas) met).length := by
  cases h with
  | @next a b met step fresh known =>
    have hlt := length_unmet_append (List.nodup_singleton b)
      (by simpa using mem_textNames.mpr known) (List.forall_mem_singleton.mpr fresh)
    rwa [unmet_perm (List.perm_append_singleton b (a :: met))] at hlt

theorem wellFounded_round (schemas : Fields) :
    WellFounded fun met' met => AliasRound schemas met met' :=
  Subrelation.wf AliasRound.unmet_lt (measure fun met => (unmet (textNames schemas) met).length).wf

/-- A schema that is no alias, or an alias for one that is missing. -/
def AliasEnd (schemas : Fields) (r : String) : Prop :=
  isAlias (schemas.value r) = false ∨ ∃ b, AliasStep schemas r b ∧ schemas.has b = false

/-- At such a schema there is no further round. -/
theorem AliasEnd.not_round (h : AliasEnd schemas r) : ¬ AliasRound schemas (r :: met) met' := by
  intro hround
  cases hround with
  | next step fresh known =>
    rcases h with hnone | ⟨b, hb, hmissing⟩
    · obtain ⟨t, ht, -⟩ := step
      rw [isAlias, ht] at hnone
      cases hnone
    · rw [hb.unique step, known] at hmissing
      cases hmissing

/-- What is done with the schema that was met last: a round, or nothing if there is none. -/
theorem followAlias_succ (hrefs : TextReferences schemas) (fuel : Nat) (a : String)
    (met : List String) :
    (∃ b, AliasRound schemas (a :: met) (b :: a :: met) ∧
        followAlias schemas (fuel + 1) (a :: met) a = followAlias schemas fuel (b :: a :: met) b) ∨
      (∀ met', ¬ AliasRound schemas (a :: met) met') ∧
        followAlias schemas (fuel + 1) (a :: met) a = .ok a := by
  rw [followAlias]
  cases ha : aliasTarget? (schemas.value a) with
  | none =>
    have hend : AliasEnd schemas a := Or.inl (by rw [isAlias, ha, Option.isSome_none])
    exact Or.inr ⟨fun _ => hend.not_round, rfl⟩
  | some ref =>
    obtain ⟨t, rfl⟩ := hrefs.exists_text ha
    have hstep : AliasStep schemas a (Naming.targetName t) := ⟨t, ha, rfl⟩
    dsimp only [Naming.targetOf]
    rw [Outcome.ok_bind]
    split
    · rename_i hstop
      refine Or.inr ⟨fun _ hround => ?_, rfl⟩
      cases hround with
      | next step fresh known =>
        rw [← hstep.unique step] at fresh known
        simp [fresh, known] at hstop
    · rename_i hgo
      simp only [Bool.or_eq_true, not_or, List.contains_iff_mem, Bool.not_eq_true',
        Bool.not_eq_false] at hgo
      exact Or.inl ⟨_, .next hstep hgo.1 hgo.2, rfl⟩

/-- **Following a chain goes on as long as there is a round**, if there is fuel for all schemas that
were not met. -/
theorem exists_followAlias (hrefs : TextReferences schemas) :
    ∀ {fuel : Nat} {a : String} {met : List String},
      (unmet (textNames schemas) (a :: met)).length < fuel →
      ∃ r behind, followAlias schemas fuel (a :: met) a = .ok r ∧
        ReflTransGen (AliasRound schemas) (a :: met) (r :: behind) ∧
        ∀ met', ¬ AliasRound schemas (r :: behind) met'
  | 0, _, _, h => absurd h (Nat.not_lt_zero _)
  | fuel + 1, a, met, h => by
    rcases followAlias_succ hrefs fuel a met with ⟨b, hround, heq⟩ | ⟨hend, heq⟩
    · have hfuel := Nat.lt_of_lt_of_le hround.unmet_lt (Nat.le_of_lt_succ h)
      obtain ⟨r, behind, hfollow, hrounds, hend⟩ := exists_followAlias hrefs hfuel
      exact ⟨r, behind, heq.trans hfollow, .head hround hrounds, hend⟩
    · exact ⟨a, met, heq, .refl, hend⟩

theorem exists_resolveAlias (hrefs : TextReferences schemas) (n : String) :
    ∃ r behind, resolveAlias schemas n = .ok r ∧
      ReflTransGen (AliasRound schemas) [n] (r :: behind) ∧
      ∀ met, ¬ AliasRound schemas (r :: behind) met := by
  refine exists_followAlias hrefs (Nat.lt_succ_of_le ?_)
  calc (unmet (textNames schemas) [n]).length
      ≤ (textNames schemas).length := List.length_filter_le _ _
    _ ≤ schemas.names.length := List.length_filterMap_le _ _
    _ = schemas.length := List.length_map _

/-! ## Ways -/

/-- A way from one name to another along aliases of the schemas, with no name twice; the last name
comes first. -/
structure AliasWay (schemas : Fields) (n : String) (met : List String) : Prop where
  start : met.getLast? = some n
  steps : met.IsChain fun b a =>
    AliasStep schemas a b ∧ schemas.has a = true ∧ schemas.has b = true
  distinct : met.Nodup

theorem AliasStep.has (h : AliasStep schemas a b) : schemas.has a = true := by
  obtain ⟨t, ht, -⟩ := h
  refine Fields.has_of_value_ne fun hnull => ?_
  rw [hnull] at ht
  cases ht

/-- A round makes a way longer. -/
theorem AliasWay.round (h : AliasWay schemas n met) (hround : AliasRound schemas met met') :
    AliasWay schemas n met' := by
  cases hround with
  | next step fresh known =>
    refine ⟨?_, List.isChain_cons_cons.mpr ⟨⟨step, step.has, known⟩, h.steps⟩,
      List.nodup_cons.mpr ⟨fresh, h.distinct⟩⟩
    rw [List.getLast?_cons_cons]
    exact h.start

theorem way_of_rounds (h : ReflTransGen (AliasRound schemas) [n] met) : AliasWay schemas n met := by
  induction h with
  | refl => exact ⟨rfl, List.isChain_singleton n, List.nodup_singleton n⟩
  | tail _ hround ih => exact ih.round hround

/-- Every name on a way leads on to its end. -/
theorem AliasWay.leads (h : AliasWay schemas n (r :: met)) :
    ∀ m ∈ met, TransGen (AliasStep schemas) m r := by
  have hchain : (r :: met).IsChain fun b a => TransGen (AliasStep schemas) a b :=
    h.steps.imp fun _ _ hstep => .single hstep.1
  have : IsTrans String fun b a => TransGen (AliasStep schemas) a b :=
    ⟨fun _ _ _ hba hcb => hcb.trans hba⟩
  exact (List.pairwise_cons.mp hchain.pairwise).1

theorem AliasWay.reaches (h : AliasWay schemas n (r :: met)) :
    ReflTransGen (AliasStep schemas) n r := by
  rcases List.mem_cons.mp (List.mem_of_getLast? h.start) with rfl | hmem
  · exact .refl
  · exact (h.leads n hmem).to_reflTransGen

/-! ## Ends -/

/-- Where there is no cycle, a way that no round makes longer has come to the end of the chain. -/
theorem AliasWay.isEnd (hrefs : TextReferences schemas) (h : AliasWay schemas n (r :: met))
    (hend : ∀ met', ¬ AliasRound schemas (r :: met) met') (hfree : AliasFree schemas n) :
    AliasEnd schemas r := by
  cases ha : aliasTarget? (schemas.value r) with
  | none => exact Or.inl (by rw [isAlias, ha, Option.isSome_none])
  | some ref =>
    obtain ⟨t, rfl⟩ := hrefs.exists_text ha
    have hstep : AliasStep schemas r (Naming.targetName t) := ⟨t, ha, rfl⟩
    refine Or.inr ⟨_, hstep, Bool.eq_false_iff.mpr fun hknown => ?_⟩
    -- the target has been met, so the chain comes back to it
    have hmet : Naming.targetName t ∈ r :: met := by
      by_contra hfresh
      exact hend _ (.next hstep hfresh hknown)
    refine hfree r h.reaches ?_
    rcases List.mem_cons.mp hmet with heq | hmem
    · rw [heq] at hstep
      exact .single hstep
    · exact .head hstep (h.leads _ hmem)

theorem AliasEnd.resolveAlias_eq (h : AliasEnd schemas r) (hrefs : TextReferences schemas) :
    resolveAlias schemas r = .ok r := by
  obtain ⟨r', behind, hresolve, hrounds, -⟩ := exists_resolveAlias hrefs r
  rcases hrounds.cases_head with heq | ⟨met, hround, -⟩
  · cases heq
    exact hresolve
  · exact absurd hround h.not_round

/-- **Resolving an alias comes to an end**: at the end of a way along aliases that no round makes
longer. **Unless there is a cycle**, this is the end of the chain, which stands for itself. -/
theorem resolveAlias_ends (hrefs : TextReferences schemas) (n : String) :
    WellFounded (fun met' met => AliasRound schemas met met') ∧
    ∃ r behind, resolveAlias schemas n = .ok r ∧
      ReflTransGen (AliasRound schemas) [n] (r :: behind) ∧
      (∀ met, ¬ AliasRound schemas (r :: behind) met) ∧
      AliasWay schemas n (r :: behind) ∧
      (AliasFree schemas n → AliasEnd schemas r ∧ resolveAlias schemas r = .ok r) := by
  obtain ⟨r, behind, hresolve, hrounds, hend⟩ := exists_resolveAlias hrefs n
  have hway := way_of_rounds hrounds
  refine ⟨wellFounded_round schemas, r, behind, hresolve, hrounds, hend, hway, fun hfree => ?_⟩
  have hfinal := hway.isEnd hrefs hend hfree
  exact ⟨hfinal, hfinal.resolveAlias_eq hrefs⟩

/-- A schema that is an alias. -/
def aliasFor (name : String) : Value :=
  .object [(.text "allOf",
    .list [.object [(.text "$ref", .text ("#/components/schemas/" ++ name))]])]

/-- A chain that leads to a missing schema, and one that runs into a cycle. -/
def chains : Fields :=
  [(.text "Owner", aliasFor "Person"), (.text "Person", aliasFor "Party"),
   (.text "Party", aliasFor "Contact"), (.text "Tail", aliasFor "Left"),
   (.text "Left", aliasFor "Right"), (.text "Right", aliasFor "Left")]

theorem aliasFree_owner : AliasFree chains "Owner" := by
  refine aliasFree_of_step (b := "Person") ⟨_, rfl, by decide⟩ ?_
  refine aliasFree_of_step (b := "Party") ⟨_, rfl, by decide⟩ ?_
  refine aliasFree_of_step (b := "Contact") ⟨_, rfl, by decide⟩ ?_
  refine aliasFree_of_not_step fun b hstep => ?_
  have hknown := hstep.has
  revert hknown
  decide

theorem resolveAlias_ends_missing :
    TextReferences chains ∧ AliasFree chains "Owner" ∧
      (∃ behind, ReflTransGen (AliasRound chains) ["Owner"] ("Party" :: behind)) ∧
      resolveAlias chains "Owner" = .ok "Party" ∧ isAlias (chains.value "Party") = true ∧
      (∃ b, AliasStep chains "Party" b ∧ chains.has b = false) ∧
      resolveAlias chains "Party" = .ok "Party" := by
  have hrefs : TextReferences chains := by
    unfold TextReferences
    decide
  obtain ⟨-, r, behind, hresolve, hrounds, -, -, hend⟩ := resolveAlias_ends hrefs "Owner"
  obtain rfl : "Party" = r := Except.ok.inj hresolve
  obtain ⟨hfinal, hstable⟩ := hend aliasFree_owner
  have halias : isAlias (chains.value "Party") = true := rfl
  refine ⟨hrefs, aliasFree_owner, ⟨behind, hrounds⟩, hresolve, halias, ?_, hstable⟩
  rcases hfinal with hnone | hmissing
  · rw [halias] at hnone
    cases hnone
  · exact hmissing

/-- On a cycle a name need not stand for what it resolves to. -/
example : resolveAlias chains "Tail" = .ok "Right" ∧ resolveAlias chains "Right" = .ok "Left" :=
  ⟨rfl, rfl⟩

end SchemaForge.Reference
