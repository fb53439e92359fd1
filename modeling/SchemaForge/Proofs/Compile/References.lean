import SchemaForge.Proofs.Compile.Trees
import SchemaForge.Proofs.Expression.References

/-!
# References in compiled schemas

Compilation finds the references of a schema in many places, but what becomes of a reference is
decided in one. Two ways to compile references that do the same on all names in scope compile the
whole schema in the same way, and if what they give meets a condition then so does every reference
in the result.

That references meet a condition is a condition on trees, and the schemas in scope are a set that
has the parts of its members.
-/

namespace SchemaForge.Compile

open Reference Schema

variable {X : String} {S : String → Prop} {G : Ref → Prop} {env : Environment}

/-- All references meet a condition, whatever method is called on what. -/
def meetsCondition (G : Ref → Prop) : TreeCondition where
  node := Node.Meets G
  calls _ := True
  literal _ := Node.meets_literal
  regex _ := Node.meets_regex
  array h := Node.meets_array.mpr h
  shape h := Node.meets_shape.mpr h
  code {parts} h := by
    refine Node.meets_code.mpr fun p hp => ?_
    cases p with
    | text s => exact Part.meets_text
    | node n => exact h n hp
  member h := h
  zod h := Expression.meets_zod.mpr h
  andThen he hargs _ := Expression.meets_andThen.mpr ⟨he, hargs⟩
  dropLast {e} he := by
    obtain ⟨hbase, hmodifiers⟩ := Expression.meets_iff.mp he
    exact Expression.meets_mk.mpr ⟨hbase, fun m hm => hmodifiers m ((List.dropLast_sublist _).subset hm)⟩
  calls_zod _ := trivial
  calls_name _ := trivial
  calls_andThen _ _ _ := trivial
  calls_dropLast _ := trivial

/-! ## Schemas in scope -/

section Lasting

variable {P : Fields → Prop}

theorem visibleFields_everywhere (hP : Lasting env.context.visibility P) {schema fields : Fields}
    (hs : Everywhere P schema)
    (hf : visibleFields env schema = .ok fields) : Everywhere P fields := by
  unfold visibleFields at hf
  split at hf
  · obtain ⟨filtered, hfiltered, hf⟩ := Outcome.bind_eq_ok.mp hf
    have hin : ValueEverywhere P filtered := filter_everywhere hP hfiltered hs
    rw [Value.eq_object_of_fields hf] at hin
    exact hin
  · cases hf
    exact hs

variable {vis : Visibility} (hP : Lasting vis P)
include hP

theorem BranchPart.everywhere {branch v : Value} (hb : ValueEverywhere P branch)
    (h : BranchPart branch v) : ValueEverywhere P v := by
  cases h with
  | whole reduced => exact reduceBranch_everywhere hP hb reduced v rfl
  | property reduced declared held =>
    exact Everywhere.properties (reduceBranch_everywhere hP hb reduced _ rfl) declared _ held

/-- **What lasts and holds everywhere in a schema holds everywhere in its parts.** -/
theorem PartOf.everywhere {schema : Fields} {v : Value} (hs : Everywhere P schema)
    (h : PartOf schema v) : ValueEverywhere P v := by
  cases h with
  | keyword known held =>
    have hsingle : ∀ k ∈ schemaKeywords, k ∈ singleKeywords := by decide
    exact hs.single (hsingle _ known)
  | place walked held => exact hs.walked (by decide) walked held
  | property declared held => exact hs.properties declared _ held
  | entry known is held =>
    have hnamed : ∀ k ∈ ["patternProperties", "dependencies"], k ∈ namedKeywords := by decide
    exact hs.named (hnamed _ known) is held
  | oneType several held =>
    exact hP.put (hP.erase hs (by decide)) (by decide) (by decide) _
  | excluded held =>
    rw [← Fields.value_of_get? held]
    exact hs.single (by decide)
  | remainder held => exact hP.erase (hP.erase hs (by decide)) (by decide)
  | branch known held walked listed part =>
    have hlisted : ∀ k ∈ ["allOf", "oneOf", "anyOf"], k ∈ listKeywords := by decide
    rw [← Fields.value_of_get? held] at walked
    exact part.everywhere hP (hs.walked (hlisted _ known) walked listed)
  | @target discriminator mapping name target told mapped held =>
    refine hP.target hs (f := (name, target)) ?_
    unfold mappingOf
    rw [told]
    dsimp only
    rw [mapped]
    exact held

end Lasting

theorem visibleFields_scope {schema fields : Fields} (hs : InScope S schema)
    (hf : visibleFields env schema = .ok fields) : InScope S fields :=
  visibleFields_everywhere (lasting_ownNames _) hs hf

/-- **The parts of a schema in scope are in scope.** -/
theorem PartOf.scope {schema : Fields} {v : Value} (hs : InScope S schema) (h : PartOf schema v) :
    ValueInScope S v :=
  h.everywhere (lasting_ownNames .all) hs

/-! ## Named schemas -/

/-- Two ways to compile references do the same on names in scope. -/
def ReferSame (X : String) (S : String → Prop) (G : Ref → Prop) (refer refer' : Refer) : Prop :=
  ∀ ref top, S (Naming.targetName ref) → Same X (Expression.Meets G)
    (refer ref (Naming.targetName ref) top) (refer' ref (Naming.targetName ref) top)

section Named

variable {refer refer' : Refer} (hd : env.context.dateTime.Meets G)
  (hr : ReferSame X S G refer refer')
include hd hr

theorem treeRules_scope : TreeRules (meetsCondition G) X (fun _ _ => True) env refer refer'
    (ValueInScope S) where
  dateTime := hd
  parts hs hfields hpart := hpart.scope (visibleFields_scope hs hfields)
  references top hs hfields hform := by
    refine hr _ top ?_
    have hheld := Fields.value_of_get? (get?_of_classify_reference hform)
    exact (visibleFields_scope hs hfields).here.ref _ hheld
  sites _ _ _ :=
    { allOf := fun _ => ⟨fun _ _ _ _ _ => trivial, fun _ _ _ _ _ _ _ => trivial⟩
      admitting := fun _ _ _ _ _ _ _ _ => trivial
      checkedAllOf := fun _ _ _ _ _ _ _ _ _ _ => Or.inl trivial
      checkedUnion := fun _ _ _ _ => Or.inl trivial }
  branch _ _ _ _ _ _ _ _ _ _ _ := trivial
  truth _ _ := trivial

/-- **Ways to compile references that do the same in scope compile a named schema the same way.** -/
theorem compileNamedWith_eq {v : Value} (hv : ValueInScope S v) :
    compileNamedWith env refer X v = compileNamedWith env refer' X v :=
  (treeRules_scope hd hr).compileNamedWith_eq hv

/-- **Every reference in a compiled named schema meets the condition.** -/
theorem meets_compileNamedWith {v : Value} (hv : ValueInScope S v) {p q : Progress}
    {e : Expression} {s : Session} (he : (compileNamedWith env refer X v).run p = (.ok (e, s), q)) :
    e.Meets G :=
  (treeRules_scope hd hr).holds_compileNamedWith hv he

end Named

end SchemaForge.Compile
