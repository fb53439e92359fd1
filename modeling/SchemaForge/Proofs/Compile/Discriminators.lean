import SchemaForge.Proofs.Compile.BranchWalk
import SchemaForge.Proofs.Compile.DefaultNull
import SchemaForge.Proofs.Compile.Keeping

/-!
# Unions with a discriminator

A union that names a discriminator is told apart by it exactly if all of its branches require it.
Otherwise it is a plain union of the same branches, and a warning says so. The branches are those
that are visible, in the order of the mapping and with those that only the mapping names.

What a union is compiled to stands in the base of its expression. Nothing that comes after, null or
the check of unevaluated properties, touches it.
-/

namespace SchemaForge

@[simp] theorem Expression.base_nullableIf (e : Expression) (nullable : Bool) :
    (e.nullableIf nullable).base = e.base := by
  cases nullable <;> rfl

theorem Expression.callee_of_base {e e' : Expression} (h : e.base = e'.base) :
    e.callee = e'.callee := by
  rw [Expression.callee, Expression.callee, h]

namespace Compile

open Schema

variable {env : Environment} {inner : Inner} {schema fields : Fields} {e : Expression}
  {p q : Progress} {discriminator mapping : Value} {branches ordered : List Value}

/-! ## The base of a union -/

theorem callee_of_discriminated {property : Value} {members : List Expression}
    (h : e.base = (unionOf (some property) members).base) :
    e.callee = some "z.discriminatedUnion" :=
  Expression.callee_of_base h

theorem callee_of_plain {members : List Expression} (h : e.base = (unionOf none members).base) :
    e.callee = some "z.union" :=
  Expression.callee_of_base h

/-- The check of unevaluated properties opens no union: its branches let other properties pass. -/
theorem checkUnevaluated_base {callee : String} (hcallee : e.callee = some callee)
    (hunion : callee ∈ unionCallees) :
    Ends (fun e' => e'.base = e.base) (checkUnevaluated env inner schema e) := by
  have hadmit : ∀ e' : Expression, e'.base = e.base → (admitUnevaluated e').base = e.base := by
    intro e' hbase
    have hisUnion : e'.callee.any unionCallees.contains = true := by
      rw [Expression.callee_of_base hbase, hcallee]
      exact List.elem_eq_true_of_mem hunion
    unfold admitUnevaluated
    dsimp only
    rw [hisUnion]
    exact hbase
  -- a final `nullable` is taken off for the check and put back on
  have hbare : (if e.isNullable then ⟨e.base, e.modifiers.dropLast⟩ else e : Expression).base =
      e.base := by
    split <;> rfl
  unfold checkUnevaluated
  dsimp only
  split
  · refine .bind fun names => .bind fun evaluated => .pure ?_
    rw [Expression.base_nullableIf, Expression.base_andThen, hadmit _ hbare]
  · refine .bind fun names => .bind fun evaluated => ?_
    refine Ends.andThen (R := fun e' : Expression => e'.base = e.base) ?_ fun e' he' => .pure ?_
    · refine .bind fun rule => .pure ?_
      rw [Expression.base_andThen, hadmit _ hbare]
    · rw [Expression.base_nullableIf, he']
  · exact .pure rfl

/-! ## Warnings -/

theorem run_addWarning {message : String} {result : Except Failure Unit}
    (h : (addWarning message).run p = (result, q)) :
    q.session.name = p.session.name ∧ message ∈ q.session.warnings := by
  replace h : (if p.session.warnings.contains message then _ else _ : Compile Unit).run p =
    (result, q) := h
  split at h
  · rename_i hnoted
    cases h
    exact ⟨rfl, by simpa using hnoted⟩
  · cases h
    exact ⟨rfl, List.mem_append_right _ List.mem_cons_self⟩

/-! ## The choice -/

/-- The branches of a union in their final order. -/
def branchesByMapping (mapping : Value) (branches : List Value) : Except Fault (List Value) :=
  if mapping.isSet then orderByMapping mapping branches else .ok branches

/-- What tells branches apart if a discriminator is named: the discriminator, if all of them require
it, or else nothing, and then there is a warning. -/
inductive Selected (env : Environment) (discriminator : Value) (ordered : List Value)
    (owner : Option String) (warnings : List String) : Selector → Prop where
  | property (required : ∀ b ∈ ordered, Requires env.schemas discriminator b) :
      Selected env discriminator ordered owner warnings (.property discriminator)
  | unusable (missing : ¬ ∀ b ∈ ordered, Requires env.schemas discriminator b)
      (warned : discriminatorWarning discriminator owner ∈ warnings) :
      Selected env discriminator ordered owner warnings (.unusable discriminator)

theorem run_selectBranches (hset : discriminator.isSet = true) {selector : Selector}
    (h : (selectBranches env branches discriminator mapping).run p = (.ok (ordered, selector), q)) :
    branchesByMapping mapping branches = .ok ordered ∧ q.session.name = p.session.name ∧
      Selected env discriminator ordered p.session.name q.session.warnings selector := by
  -- the order of the branches is settled first, and what follows is the same for both orders
  have hchosen : ∀ {bs : List Value}, ((do
      if ← requiredEverywhere env.schemas discriminator bs then
        return (bs, .property discriminator)
      else
        addWarning (discriminatorWarning discriminator (← session).name)
        return (bs, .unusable discriminator) : Compile (List Value × Selector))).run p =
          (.ok (ordered, selector), q) →
      ordered = bs ∧ q.session.name = p.session.name ∧
        Selected env discriminator bs p.session.name q.session.warnings selector := by
    intro bs h
    obtain ⟨everywhere, heverywhere, h⟩ := run_liftBind_eq_ok h
    have hiff := requiredEverywhere_iff heverywhere
    cases everywhere with
    | true =>
      cases h
      exact ⟨rfl, rfl, .property (hiff.mp rfl)⟩
    | false =>
      obtain ⟨s, r, hs, h⟩ := run_bind_eq_ok h
      cases hs
      obtain ⟨_, r, hr, h⟩ := run_bind_eq_ok h
      cases h
      obtain ⟨hname, hwarned⟩ := run_addWarning hr
      exact ⟨rfl, hname, .unusable (fun hall => Bool.false_ne_true (hiff.mpr hall)) hwarned⟩
  unfold selectBranches at h
  rw [if_pos hset] at h
  unfold branchesByMapping
  split at h
  · rename_i hmapping
    rw [if_pos hmapping]
    obtain ⟨bs, hbs, h⟩ := run_liftBind_eq_ok h
    obtain ⟨rfl, hselected⟩ := hchosen h
    exact ⟨hbs, hselected⟩
  · rename_i hmapping
    rw [if_neg hmapping]
    obtain ⟨rfl, hselected⟩ := hchosen h
    exact ⟨rfl, hselected⟩

/-! ## Unions -/

/-- Branches are compiled one after another, in a session of the given name. -/
def CompiledInOrder (env : Environment) (owner : Option String) (branches : List Value)
    (compiled : List Expression) : Prop :=
  ∃ levels p q, p.session.name = owner ∧
    (branches.mapM fun branch => within env (compileReference env) levels branch true).run p =
      (.ok compiled, q)

/-- The members of a union of compiled branches: they let other properties pass if a rule for these
comes after the union. -/
def unionMembers (fields : Fields) (compiled : List Expression) : List Expression :=
  if fields.has "unevaluatedProperties" then compiled.map ensureAdmits else compiled

/-- What a union with a discriminator is compiled to: its base, and the warning that is there if the
discriminator is not used. -/
inductive UnionOf (env : Environment) (discriminator : Value) (ordered : List Value)
    (owner : Option String) (members : List Expression) (warnings : List String)
    (e : Expression) : Prop where
  | discriminated (required : ∀ b ∈ ordered, Requires env.schemas discriminator b)
      (base : e.base = (unionOf (some discriminator) members).base)
  | plain (missing : ¬ ∀ b ∈ ordered, Requires env.schemas discriminator b)
      (base : e.base = (unionOf none members).base)
      (warned : discriminatorWarning discriminator owner ∈ warnings)

theorem run_compileUnion {kind : UnionKind} {nullable admitting : Bool} {levels : Nat}
    (hset : discriminator.isSet = true) (hmany : 2 ≤ branches.length)
    (h : (compileUnion env (within env (compileReference env) levels) kind branches discriminator
      mapping nullable admitting).run p = (.ok e, q)) :
    ∃ ordered compiled, branchesByMapping mapping branches = .ok ordered ∧
      CompiledInOrder env p.session.name ordered compiled ∧
      UnionOf env discriminator ordered p.session.name
        (if admitting then compiled.map ensureAdmits else compiled) q.session.warnings e := by
  unfold compileUnion at h
  split at h
  · simp at hmany
  · simp at hmany
  obtain ⟨⟨ordered, selector⟩, r, hselect, h⟩ := run_bind_eq_ok h
  obtain ⟨hordered, hname, hselected⟩ := run_selectBranches hset hselect
  obtain ⟨compiled, r', hcompiled, h⟩ := run_bind_eq_ok h
  cases h
  -- the warning of the choice outlives the compilation of the branches
  have hkept : r.session.warnings ⊆ q.session.warnings := by
    have hruns : Runs growing (fun _ => True) (ordered.mapM fun branch =>
        within env (compileReference env) levels branch true) :=
      Keeps.mapM fun b _ => innerRuns_within env levels (fun _ => True) b trivial true
    have hgrown := (hruns r).1.warnings
    rw [hcompiled] at hgrown
    exact hgrown.kept.subset
  refine ⟨ordered, compiled, hordered, ⟨levels, r, q, hname, hcompiled⟩, ?_⟩
  cases hselected with
  | property required => exact .discriminated required (Expression.base_nullableIf _ _)
  | unusable missing warned =>
    exact .plain missing (Expression.base_nullableIf _ _) (hkept warned)

/-- **What a union is compiled to stays as it is** up to the end of the schema. -/
theorem run_compileClassified_union {refer : Refer} {kind : UnionKind} {levels : Nat}
    {top branch : Bool} (hset : discriminator.isSet = true) (hmany : 2 ≤ branches.length)
    (h : (compileClassified env refer (within env (compileReference env) levels) fields top branch
      (.union kind branches discriminator mapping)).run p = (.ok e, q)) :
    ∃ ordered compiled, branchesByMapping mapping branches = .ok ordered ∧
      CompiledInOrder env p.session.name ordered compiled ∧
      UnionOf env discriminator ordered p.session.name (unionMembers fields compiled)
        q.session.warnings e := by
  obtain ⟨union, r, hunion, h⟩ := run_bind_eq_ok h
  obtain ⟨ordered, compiled, hordered, hcompiled, hof⟩ := run_compileUnion hset hmany hunion
  have hkept : r.session.warnings ⊆ q.session.warnings := by
    have hruns : Runs growing (fun _ => True)
        (checkUnevaluated env (within env (compileReference env) levels) fields union) :=
      checkUnevaluated_runs permits_all (innerRuns_within env levels (PartOf fields))
    have hgrown := (hruns r).1.warnings
    rw [h] at hgrown
    exact hgrown.kept.subset
  refine ⟨ordered, compiled, hordered, hcompiled, ?_⟩
  cases hof with
  | discriminated required base =>
    have hbase := checkUnevaluated_base (callee_of_discriminated base) (by decide) r e q h
    exact .discriminated required (hbase.trans base)
  | plain missing base warned =>
    have hbase := checkUnevaluated_base (callee_of_plain base) (by decide) r e q h
    exact .plain missing (hbase.trans base) (hkept warned)

/-- Two schemas that extend each other, of which one requires its kind. -/
def catAndPet : Fields :=
  [(.text "Cat", .object [(.text "allOf", .list [refTo "Pet"])]),
   (.text "Pet", .object [(.text "required", .list [.text "kind"]),
     (.text "allOf", .list [refTo "Cat"])])]

/-- Their union, with a mapping that turns them around. -/
def animal : Fields :=
  [(.text "oneOf", .list [refTo "Cat", refTo "Pet"]),
   (.text "discriminator", .object [(.text "propertyName", .text "kind"),
     (.text "mapping", .object [(.text "p", .text "#/components/schemas/Pet"),
       (.text "c", .text "#/components/schemas/Cat")])])]

/-- A branch that requires its kind, with more to say about it. -/
def kindBranch (more : Fields) : Fields :=
  [(.text "type", .text "object"),
   (.text "properties", .object [(.text "kind", .object ((.text "type", .text "string") :: more))]),
   (.text "required", .list [.text "kind"])]

theorem requires_kindBranch (schemas more : Fields) :
    Requires schemas (.text "kind") (.object (kindBranch more)) :=
  ⟨_, .refl, rfl, _, rfl, .text "kind", List.mem_cons_self, by decide⟩

/-- A union of two such branches; in the first the kind is read-only. -/
def halfHidden : Fields :=
  [(.text "properties", .object []),
   (.text "oneOf", .list [.object (kindBranch [(.text "readOnly", .bool true)]),
     .object (kindBranch [])]),
   (.text "discriminator", .object [(.text "propertyName", .text "kind")])]

end Compile

end SchemaForge
