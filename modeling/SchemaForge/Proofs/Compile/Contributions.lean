import SchemaForge.Proofs.Compile.Evaluated

/-!
# The recursion over what a branch contributes

What a branch contributes is found by a recursion that goes from a reference to its target and from
any other schema to its `allOf` members. A reference that was followed on the way is not followed
again.

`contributionStep` is what one call does, given what the calls that it makes return. Every chain of
such calls ends (`wellFounded_calledFor`), so there is one function that the recursion computes, and
the properties that are gathered with a bounded number of steps are its result
(`existsUnique_recursion`, `propertiesOf_eq`). There is a result exactly if everything on walks from
the branch can be read (`exists_propertiesOf_iff`), and it has the names that schemas on these walks
declare.
-/

namespace SchemaForge.Compile

open Relation

variable {schemas fields : Fields} {seen : List String} {v w u : Value} {fuel : Nat} {ref : String}
  {call call' : List String → Value → Except Fault Fields}

/-! ## Calls -/

/-- The properties that a branch contributes, given what is returned by the calls for other
branches: one for the target of a reference, or one for each `allOf` member. -/
def contributionStep (schemas : Fields) (call : List String → Value → Except Fault Fields)
    (seen : List String) (branch : Value) : Except Fault Fields := do
  match ← branchRef? branch with
  | some ref =>
    match schemas.value (Naming.targetName ref) with
    | .null => return []
    | target => if seen.contains ref then return [] else call (ref :: seen) target
  | none =>
    let fields ← branch.fields
    let members ← (fields.value "allOf").walkIfSet
    let inherited ← members.foldlM (fun found member => do
      return mergeNew found (← call seen member)) []
    let own ← (fields.value "properties").fieldsIfSet
    return mergeNew inherited own

/-- The calls that are made for a branch, each with the references that were followed. -/
inductive CalledFor (schemas : Fields) : List String × Value → List String × Value → Prop where
  | target {seen : List String} {v : Value} {ref : String} (refers : RefersBy v ref)
      (known : schemas.value (Naming.targetName ref) ≠ .null) (fresh : ref ∉ seen) :
      CalledFor schemas (ref :: seen, schemas.value (Naming.targetName ref)) (seen, v)
  | member {seen : List String} {fields : Fields} {members : List Value} {m : Value}
      (own : fields.has "$ref" = false)
      (walked : (fields.value "allOf").walkIfSet = .ok members) (listed : m ∈ members) :
      CalledFor schemas (seen, m) (seen, .object fields)

theorem branchProperties_succ (schemas : Fields) (fuel : Nat) (seen : List String) (v : Value) :
    branchProperties schemas (fuel + 1) seen v =
      contributionStep schemas (branchProperties schemas fuel) seen v := rfl

theorem foldlM_congr {α β : Type} {f g : β → α → Except Fault β} : ∀ {l : List α} {b : β},
    (∀ a ∈ l, ∀ b, f b a = g b a) → l.foldlM f b = l.foldlM g b
  | [], _, _ => rfl
  | a :: l, b, h => by
    obtain ⟨hfirst, hrest⟩ := List.forall_mem_cons.mp h
    rw [List.foldlM_cons, List.foldlM_cons, hfirst b]
    exact bind_congr fun _ => foldlM_congr hrest

/-- **No other calls are made**: what a call does depends on them only. -/
theorem contributionStep_congr (h : ∀ seen' w, CalledFor schemas (seen', w) (seen, v) →
    call seen' w = call' seen' w) :
    contributionStep schemas call seen v = contributionStep schemas call' seen v := by
  unfold contributionStep
  cases href : branchRef? v with
  | error e => rfl
  | ok ref? =>
    rw [Outcome.ok_bind, Outcome.ok_bind]
    cases ref? with
    | some ref =>
      have hrefers := branchRef?_eq_some href
      dsimp only
      split
      · rfl
      · rename_i hknown
        split
        · rfl
        · rename_i hseen
          exact h _ _ (.target hrefers hknown (by simpa using hseen))
    | none =>
      dsimp only
      cases hfields : v.fields with
      | error e => rfl
      | ok fields =>
        obtain rfl := Value.eq_object_of_fields hfields
        have hown := branchRef?_eq_none href
        rw [Outcome.ok_bind, Outcome.ok_bind]
        cases hmembers : (fields.value "allOf").walkIfSet with
        | error e => rfl
        | ok members =>
          rw [Outcome.ok_bind, Outcome.ok_bind]
          rw [foldlM_congr fun m hm found => by rw [h seen m (.member hown hmembers hm)]]

/-! ## Every chain of calls ends -/

/-- A number of steps that is enough for a branch, whatever references were followed. -/
def enoughSteps (schemas : Fields) (v : Value) : Nat :=
  (v.texts ++ Fields.texts schemas).length * (Fields.weight schemas + 1) + v.weight

theorem bounded_enoughSteps (schemas : Fields) (seen : List String) (v : Value) :
    Bounded schemas (enoughSteps schemas v) seen v := by
  refine ⟨v.texts ++ Fields.texts schemas, fun u hu ref => mem_texts_of_walk hu, ?_⟩
  exact Nat.add_le_add_right (Nat.mul_le_mul_right _ (List.length_filter_le _ _)) _

theorem Bounded.called {seen' : List String} (h : Bounded schemas (fuel + 1) seen v)
    (hcall : CalledFor schemas (seen', w) (seen, v)) : Bounded schemas fuel seen' w := by
  cases hcall with
  | target refers known fresh => exact h.target refers known fresh
  | member own walked listed => exact h.member own walked listed

/-- **A bound on the steps is a bound on every chain of calls.** -/
theorem Bounded.acc : ∀ {fuel : Nat} {seen : List String} {v : Value},
    Bounded schemas fuel seen v → Acc (CalledFor schemas) (seen, v)
  | 0, _, _, h => absurd h not_bounded_zero
  | _ + 1, _, _, h => .intro _ fun ⟨_, _⟩ hcall => (h.called hcall).acc

theorem wellFounded_calledFor (schemas : Fields) : WellFounded (CalledFor schemas) :=
  ⟨fun ⟨seen, v⟩ => (bounded_enoughSteps schemas seen v).acc⟩

/-! ## What the recursion computes -/

/-- Enough steps are as good as any other number that is enough. -/
theorem branchProperties_eq_of_bounded : ∀ {fuel fuel' : Nat} {seen : List String} {v : Value},
    Bounded schemas fuel seen v → Bounded schemas fuel' seen v →
    branchProperties schemas fuel seen v = branchProperties schemas fuel' seen v
  | 0, _, _, _, h, _ => absurd h not_bounded_zero
  | _ + 1, 0, _, _, _, h' => absurd h' not_bounded_zero
  | fuel + 1, fuel' + 1, seen, v, h, h' => by
    rw [branchProperties_succ, branchProperties_succ]
    exact contributionStep_congr fun seen' w hcall =>
      branchProperties_eq_of_bounded (h.called hcall) (h'.called hcall)

/-- What enough steps return is what one call does with the results of the calls that it makes. -/
theorem branchProperties_enoughSteps (schemas : Fields) (seen : List String) (v : Value) :
    branchProperties schemas (enoughSteps schemas v) seen v =
      contributionStep schemas
        (fun seen' w => branchProperties schemas (enoughSteps schemas w) seen' w) seen v := by
  have hbound := bounded_enoughSteps schemas seen v
  obtain ⟨fuel, hfuel⟩ : ∃ fuel, enoughSteps schemas v = fuel + 1 :=
    Nat.exists_eq_succ_of_ne_zero fun h0 => not_bounded_zero (h0 ▸ hbound)
  rw [hfuel] at hbound ⊢
  rw [branchProperties_succ]
  exact contributionStep_congr fun seen' w hcall =>
    branchProperties_eq_of_bounded (hbound.called hcall) (bounded_enoughSteps schemas seen' w)

/-- **The recursion has one solution**, since every chain of calls ends. -/
theorem existsUnique_recursion (schemas : Fields) :
    ∃! call, ∀ seen v, call seen v = contributionStep schemas call seen v := by
  refine ⟨fun seen v => branchProperties schemas (enoughSteps schemas v) seen v,
    branchProperties_enoughSteps schemas, fun call hcall => ?_⟩
  funext seen v
  -- by induction on the calls that are made
  generalize hp : (seen, v) = p
  induction p using (wellFounded_calledFor schemas).induction generalizing seen v with
  | _ p ih =>
    subst hp
    rw [hcall, branchProperties_enoughSteps]
    exact contributionStep_congr fun seen' w hmade => ih (seen', w) hmade seen' w rfl

/-- Its result for a branch is what is gathered with the bounded number of steps. -/
theorem propertiesOf_eq (hcall : ∀ seen v, call seen v = contributionStep schemas call seen v)
    (v : Value) : call [] v = propertiesOf schemas v := by
  have heq := (existsUnique_recursion schemas).unique hcall (branchProperties_enoughSteps schemas)
  rw [heq]
  exact branchProperties_eq_of_bounded (bounded_enoughSteps schemas [] v)
    (bounded_walkBound schemas v)

/-! ## Results -/

/-- A value from which a call can read on: a reference, or another object with something to walk
over as its `allOf` members and an object as its properties, if anything. -/
inductive Legible : Value → Prop where
  | reference {v : Value} {ref : String} (refers : RefersBy v ref) : Legible v
  | object {fields properties : Fields} {members : List Value} (own : fields.has "$ref" = false)
      (walked : (fields.value "allOf").walkIfSet = .ok members)
      (declared : (fields.value "properties").fieldsIfSet = .ok properties) :
      Legible (.object fields)

/-- A loop comes to its end only if each of its rounds does. -/
theorem exists_round {α β : Type} {f : β → α → Except Fault β} : ∀ {l : List α} {b r : β},
    l.foldlM f b = .ok r → ∀ a ∈ l, ∃ b b', f b a = .ok b'
  | [], _, _, _ => nofun
  | a :: l, b, r, h => by
    rw [List.foldlM_cons] at h
    obtain ⟨b', hfirst, hrest⟩ := Outcome.bind_eq_ok.mp h
    exact List.forall_mem_cons.mpr ⟨⟨b, b', hfirst⟩, exists_round hrest⟩

/-- A call that returns something has read the branch, and the calls that it made returned something
as well. -/
theorem legible_of_contributionStep {properties : Fields}
    (h : contributionStep schemas call seen v = .ok properties) :
    Legible v ∧ ∀ seen' w, CalledFor schemas (seen', w) (seen, v) →
      ∃ properties, call seen' w = .ok properties := by
  obtain ⟨ref?, href, h⟩ := Outcome.bind_eq_ok.mp h
  cases ref? with
  | some ref =>
    have hrefers := branchRef?_eq_some href
    refine ⟨.reference hrefers, fun seen' w hcall => ?_⟩
    cases hcall with
    | target refers known fresh =>
      cases hrefers.unique refers
      dsimp only at h
      split at h
      · exact absurd ‹_› known
      · rw [if_neg (by simpa using fresh)] at h
        exact ⟨properties, h⟩
    | member own walked listed => exact absurd hrefers (not_refersBy own)
  | none =>
    dsimp only at h
    obtain ⟨fields, hfields, h⟩ := Outcome.bind_eq_ok.mp h
    obtain ⟨members, hmembers, h⟩ := Outcome.bind_eq_ok.mp h
    obtain ⟨inherited, hinherited, h⟩ := Outcome.bind_eq_ok.mp h
    obtain ⟨declared, hdeclared, -⟩ := Outcome.bind_eq_ok.mp h
    obtain rfl := Value.eq_object_of_fields hfields
    have hown := branchRef?_eq_none href
    refine ⟨.object hown hmembers hdeclared, fun seen' w hcall => ?_⟩
    cases hcall with
    | target refers known fresh => exact absurd refers (not_refersBy hown)
    | member own walked listed =>
      rw [hmembers] at walked
      cases walked
      obtain ⟨found, found', hround⟩ := exists_round hinherited w listed
      obtain ⟨more, hmore, -⟩ := Outcome.bind_eq_ok.mp hround
      exact ⟨more, hmore⟩

/-- A call that can read the branch returns something if the calls that it makes do. -/
theorem exists_contributionStep (hlegible : Legible v)
    (hcalls : ∀ seen' w, CalledFor schemas (seen', w) (seen, v) →
      ∃ properties, call seen' w = .ok properties) :
    ∃ properties, contributionStep schemas call seen v = .ok properties := by
  unfold contributionStep
  cases hlegible with
  | @reference _ ref refers =>
    rw [branchRef?_of_refersBy refers, Outcome.ok_bind]
    dsimp only
    split
    · exact ⟨[], rfl⟩
    · rename_i hknown
      split
      · exact ⟨[], rfl⟩
      · rename_i hseen
        exact hcalls _ _ (.target refers hknown (by simpa using hseen))
  | @object fields properties members own walked declared =>
    obtain ⟨inherited, hinherited⟩ : ∃ inherited, members.foldlM (fun found member => do
        return mergeNew found (← call seen member)) [] = Except.ok inherited := by
      refine exists_foldlM fun m hm found => ?_
      obtain ⟨more, hmore⟩ := hcalls seen m (.member own walked hm)
      rw [hmore]
      exact ⟨_, rfl⟩
    rw [branchRef?_object fields own, Outcome.ok_bind]
    dsimp only [Value.fields]
    rw [Outcome.ok_bind, walked, Outcome.ok_bind, hinherited, Outcome.ok_bind, declared]
    exact ⟨_, rfl⟩

/-- **A call returns something exactly if it can read the branch and the calls that it makes return
something.** -/
theorem exists_contributionStep_iff :
    (∃ properties, contributionStep schemas call seen v = .ok properties) ↔
      Legible v ∧ ∀ seen' w, CalledFor schemas (seen', w) (seen, v) →
        ∃ properties, call seen' w = .ok properties :=
  ⟨fun ⟨_, h⟩ => legible_of_contributionStep h,
    fun ⟨hlegible, hcalls⟩ => exists_contributionStep hlegible hcalls⟩

/-- **A walk goes from a value to what is called for it**, where a reference that was followed may
be avoided from then on. -/
theorem walksAvoiding_iff : WalksAvoiding schemas seen v u ↔
    u = v ∨
      ∃ seen' w, CalledFor schemas (seen', w) (seen, v) ∧ WalksAvoiding schemas seen' w u := by
  constructor
  · intro hwalk
    rcases hwalk.cases_head with rfl | ⟨w, hstep, hrest⟩
    · exact Or.inl rfl
    · right
      obtain ⟨hleads, havoids⟩ := hstep
      cases hleads with
      | @target _ ref refers known =>
        have hrest : WalksAvoiding schemas seen (schemas.value (Naming.targetName ref)) u := hrest
        exact ⟨_, _, .target refers known (havoids ref refers), (hrest.cons ref).elim id id⟩
      | member own walked listed => exact ⟨_, _, .member own walked listed, hrest⟩
  · rintro (rfl | ⟨seen', w, hcall, hwalk⟩)
    · exact .refl
    · cases hcall with
      | target refers known fresh =>
        refine .head ⟨.target refers known, fun ref' href' => ?_⟩ hwalk.weaken
        rwa [href'.unique refers]
      | member own walked listed =>
        refine .head ⟨.member own walked listed, fun ref href => ?_⟩ hwalk
        exact absurd href (not_refersBy own)

/-- By induction on the steps left: there is a result if all values on the walk can be read. -/
theorem exists_branchProperties_iff : ∀ {fuel : Nat} {seen : List String} {v : Value},
    Bounded schemas fuel seen v →
    ((∃ properties, branchProperties schemas fuel seen v = .ok properties) ↔
      ∀ u, WalksAvoiding schemas seen v u → Legible u)
  | 0, _, _, h => absurd h not_bounded_zero
  | fuel + 1, seen, v, h => by
    have ih : ∀ seen' w, CalledFor schemas (seen', w) (seen, v) →
        ((∃ properties, branchProperties schemas fuel seen' w = .ok properties) ↔
          ∀ u, WalksAvoiding schemas seen' w u → Legible u) :=
      fun seen' w hcall => exists_branchProperties_iff (h.called hcall)
    rw [branchProperties_succ, exists_contributionStep_iff]
    constructor
    · rintro ⟨hlegible, hcalls⟩ u hwalk
      rcases walksAvoiding_iff.mp hwalk with rfl | ⟨seen', w, hcall, hrest⟩
      · exact hlegible
      · exact (ih seen' w hcall).mp (hcalls seen' w hcall) u hrest
    · intro hall
      refine ⟨hall v .refl, fun seen' w hcall => (ih seen' w hcall).mpr fun u hwalk => ?_⟩
      exact hall u (walksAvoiding_iff.mpr (Or.inr ⟨seen', w, hcall, hwalk⟩))

theorem exists_propertiesOf_iff :
    (∃ properties, propertiesOf schemas v = .ok properties) ↔
      ∀ u, WalksTo schemas v u → Legible u := by
  have h := exists_branchProperties_iff (bounded_walkBound schemas v)
  simp only [walksAvoiding_nil] at h
  exact h

/-- **What a branch contributes is found in spite of cycles.** -/
theorem contributions_exact (schemas : Fields) (branch : Value) :
    (WellFounded (CalledFor schemas) ∧
      ∃! call, ∀ seen v, call seen v = contributionStep schemas call seen v) ∧
    (∀ call, (∀ seen v, call seen v = contributionStep schemas call seen v) →
      call [] branch = propertiesOf schemas branch) ∧
    ((∃ properties, propertiesOf schemas branch = .ok properties) ↔
      ∀ u, WalksTo schemas branch u → Legible u) ∧
    ∀ properties, propertiesOf schemas branch = .ok properties → ∀ name,
      (properties.hasName name = true ↔ Contributes schemas branch name) :=
  ⟨⟨wellFounded_calledFor schemas, existsUnique_recursion schemas⟩,
    fun _ hcall => propertiesOf_eq hcall branch, exists_propertiesOf_iff,
    fun _ hproperties name => propertiesOf_iff hproperties name⟩

/-- An object with one property of the given name that extends others. -/
def extending (property : String) (bases : List String) : Value :=
  .object [(.text "allOf", .list (bases.map refTo)), (.text "properties",
    .object [(.text property, .object [(.text "type", .text "string")])])]

/-- Two schemas that extend the same one, while one of them extends what both are extended by. -/
def diamond : Fields :=
  [(.text "Top", extending "top" ["Left", "Right"]), (.text "Left", extending "left" ["Base"]),
   (.text "Right", extending "right" ["Base", "Top"]), (.text "Base", extending "id" [])]

theorem contributions_exact_diamond : ∃ properties,
    propertiesOf diamond (refTo "Top") = .ok properties ∧
    properties.names = [.text "id", .text "left", .text "right", .text "top"] ∧
    Contributes diamond (refTo "Right") (.text "left") ∧
    ¬ Contributes diamond (refTo "Left") (.text "right") := by
  obtain ⟨-, -, -, hright⟩ := contributions_exact diamond (refTo "Right")
  obtain ⟨-, -, -, hleft⟩ := contributions_exact diamond (refTo "Left")
  refine ⟨_, rfl, rfl, (hright _ rfl _).mp rfl, fun h => ?_⟩
  cases (hleft _ rfl _).mpr h

end SchemaForge.Compile
