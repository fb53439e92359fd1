import SchemaForge.Proofs.Compile.Definite
import SchemaForge.Proofs.Compile.Deferral

/-!
# Required properties of merged objects

Each branch of an `allOf` lists required names of its own, but a merged object takes the word of one
branch only: the last one that repeats the first definition of a property says whether the property
is required. What other branches require is lost, also by branches that only require properties and
declare none.
-/

namespace SchemaForge

theorem Context.Built.definite_dateTime {ctx : Context} (h : ctx.Built) : ctx.dateTime.Definite := by
  rcases h.dateTime_cases with h | ⟨source, h⟩
  · rw [h]
    exact .base _
  · rw [h]
    exact Expression.Definite.andThen (.base _) (by decide) _

namespace Compile

open Expression

variable {env : Environment} {p q : Progress} {branches : List Fields} {branch : Fields} {n : Scalar}
  {e : Expression} {levels : Nat} {nullable : Bool}

/-- The branch that says whether a property is required: the last one that repeats its first
definition. -/
def SettledBy (branches : List Fields) (n : Scalar) (branch : Fields) : Prop :=
  ∃ d earlier later, firstDefinition (branches.map ownProperties) n = some d ∧
    branches = earlier ++ branch :: later ∧ Repeats d n branch ∧ ∀ b ∈ later, ¬ Repeats d n b

/-- There is one such branch only. -/
theorem SettledBy.eq {branch' : Fields} (h : SettledBy branches n branch)
    (h' : SettledBy branches n branch') : branch = branch' := by
  obtain ⟨d, earlier, later, first, split, repeats, last⟩ := h
  obtain ⟨d', earlier', later', first', split', repeats', last'⟩ := h'
  rw [first] at first'
  cases first'
  rw [split] at split'
  rcases List.append_eq_append_iff.mp split' with ⟨between, -, h⟩ | ⟨between, -, h⟩
  · cases between with
    | nil => exact (List.cons.inj h).1
    | cons b between =>
      obtain ⟨-, rfl⟩ := List.cons.inj h
      exact absurd repeats' (last _ (by simp))
  · cases between with
    | nil => exact (List.cons.inj h).1.symm
    | cons b between =>
      obtain ⟨-, rfl⟩ := List.cons.inj h
      exact absurd repeats (last' _ (by simp))

/-- An entry is definite if its property is required. -/
theorem definite_entryOf (h : e.Definite) {required : Bool} :
    (Expression.ofNode (entryOf required e)).Definite ↔ required = true := by
  cases required with
  | true => exact ⟨fun _ => rfl, fun _ => h⟩
  | false =>
    refine ⟨fun hdefinite => ?_, nofun⟩
    have hoptional : (e.andThen "optional" []).hasModifier "optional" = true := by
      simp [Expression.hasModifier, Expression.andThen, Modifier.name]
    exact absurd (hoptional.symm.trans hdefinite) (by decide)

/-- **A merged object has a definite entry for a property if the property is visible by its first
definition and required by the last branch that repeats it**, and only then. In a session without a
name the first branch may be answered from the cache: it is then an object that was compiled for a
branch with the same canonical text, which requires the same names if they are plain texts. -/
theorem merged_definite_iff (hctx : env.context.Built)
    (hfiled : p.session.name.isSome = true ∨ p.caches.schemas.All (Filed env))
    (hfirst : ∀ first ∈ branches.head?,
      Uncached env p first false true ∨ Answerable env p first ∧ ListsNames first)
    (hlength : 2 ≤ branches.length) (hinline : ∀ b ∈ branches, InlineObject b)
    (hdistinct : ∀ b ∈ branches, Fields.distinct b = true)
    (h : (compileAllOf env (within env (compileReference env) levels) (branches.map .object)
      nullable).run p = (.ok e, q)) :
    e.SpelledOut ∧ ∀ n, (∃ entry, e.held? n = some entry ∧ (Expression.ofNode entry).Definite) ↔
      ∃ d branch, firstDefinition (branches.map ownProperties) n = some d ∧
        env.context.visibility.shows d = true ∧ SettledBy branches n branch ∧
        requires branch n = true := by
  obtain ⟨-, -, -, hspelled, heffective⟩ :=
    effective_compileAllOf hlength hinline hdistinct
      (fun first hmem => (hfirst first hmem).elim Or.inl And.left)
      (fun first hmem (_ : True) => (hfirst first hmem).imp_right And.right) h
  refine ⟨hspelled, fun n => ?_⟩
  have hentry := heffective n
  generalize e.held? n = found at hentry ⊢
  cases hentry with
  | undeclared first =>
    refine iff_of_false (by simp) ?_
    rintro ⟨d, branch, first', -⟩
    rw [first] at first'
    cases first'
  | hidden first hidden =>
    refine iff_of_false (by simp) ?_
    rintro ⟨d, branch, first', shown, -⟩
    rw [first] at first'
    cases first'
    rw [hidden] at shown
    cases shown
  | @shown d d' entry earlier later branch first shown split defined same last made =>
    obtain ⟨-, version, compiled, required, -, -, hcompiled, rfl, hrequired⟩ := made
    rw [hrequired trivial]
    have hdefinite : compiled.Definite :=
      hcompiled.definite hctx.definite_dateTime (.of_filed hctx.definite_dateTime hfiled)
    have hsettled : SettledBy branches n branch :=
      ⟨d, earlier, later, first, split, ⟨d', defined, same⟩, last⟩
    constructor
    · rintro ⟨entry, hentry, hentry'⟩
      cases hentry
      exact ⟨d, branch, first, shown, hsettled, (definite_entryOf hdefinite).mp hentry'⟩
    · rintro ⟨_, branch', _, _, hsettled', hrequires⟩
      rw [hsettled'.eq hsettled] at hrequires
      exact ⟨_, rfl, (definite_entryOf hdefinite).mpr hrequires⟩

/-- A record with a number that is read-only, and what a later version says of it. -/
def versions : List Fields :=
  let text : Fields := [(.text "type", .text "string")]
  [[(.text "type", .text "object"), (.text "properties", .object
      [(.text "id", .object text), (.text "number", .object (text ++ [(.text "readOnly", .bool true)]))])],
   [(.text "type", .text "object"), (.text "properties", .object
      [(.text "id", .object [(.text "type", .text "integer")]), (.text "title", .object text)]),
    (.text "required", .list [.text "title"])]]

theorem merged_definite_iff_versions :
    ∃ env p e q, Environment.ofConfig {} [] = .ok env ∧ p.session.name = some "Record" ∧
      (compileAllOf env (within env (compileReference env) 3) (versions.map .object) false).run p =
        (.ok e, q) ∧
      (∃ entry, e.held? (.text "title") = some entry ∧ (Expression.ofNode entry).Definite) ∧
      ¬ ∃ entry, e.held? (.text "id") = some entry ∧ (Expression.ofNode entry).Definite := by
  obtain ⟨env, henv, hgives⟩ : ∃ env, Environment.ofConfig {} [] = .ok env ∧
      ((compileAllOf env (within env (compileReference env) 3) (versions.map .object) false).run
        ⟨{ name := some "Record" }, env.caches, []⟩).1.toOption.isSome = true :=
    ⟨_, rfl, by decide +kernel⟩
  obtain ⟨e, hrun⟩ := Option.isSome_iff_exists.mp hgives
  rw [Outcome.toOption_eq_some] at hrun
  have hinline : ∀ b ∈ versions, InlineObject b := by
    simp only [versions, List.forall_mem_cons, List.not_mem_nil, false_implies, implies_true, and_true]
    exact ⟨⟨rfl, by decide⟩, ⟨rfl, by decide⟩⟩
  have hproper : env.Proper [] := Environment.proper_ofConfig ⟨rfl, List.nodup_nil⟩ henv
  obtain ⟨-, hdefinite⟩ :=
    merged_definite_iff hproper.context (Or.inl rfl) (fun _ _ => Or.inl (Or.inl rfl)) (by decide)
      hinline (by decide) (Prod.ext hrun rfl)
  refine ⟨env, _, e, _, henv, rfl, Prod.ext hrun rfl, (hdefinite _).mpr ?_, fun hid => ?_⟩
  · have hsame : SameCanonical (.object [(.text "type", .text "string")])
        (.object [(.text "type", .text "string")]) := ⟨_, rfl, rfl⟩
    exact ⟨_, _, rfl, by cases env.context.visibility <;> rfl,
      ⟨_, [versions.head (by decide)], [], rfl, rfl, ⟨_, rfl, hsame⟩, List.forall_mem_nil _⟩, by decide⟩
  · obtain ⟨d, branch, -, -, ⟨_, earlier, later, -, split, -⟩, hrequired⟩ := (hdefinite _).mp hid
    have hnone : ∀ b ∈ versions, requires b (.text "id") = false := by decide
    rw [hnone branch (split ▸ List.mem_append_right _ List.mem_cons_self)] at hrequired
    cases hrequired

/-- A record whose id is declared by one branch and required by another. -/
def requiredApart : List Fields :=
  [[(.text "type", .text "object"), (.text "properties", .object
      [(.text "id", .object [(.text "type", .text "string")])])],
   [(.text "type", .text "object"), (.text "required", .list [.text "id"])]]

/-- What one branch declares and another one requires is optional. -/
theorem merged_not_definite :
    ∃ env p e q, Environment.ofConfig {} [] = .ok env ∧ p.session.name = some "Record" ∧
      (compileAllOf env (within env (compileReference env) 3) (requiredApart.map .object) false).run
        p = (.ok e, q) ∧
      (∀ b ∈ requiredApart, InlineObject b) ∧ e.SpelledOut ∧
      (∃ b ∈ requiredApart, requires b (.text "id") = true) ∧
      (∃ b ∈ requiredApart, ∃ d, Fields.lookup (.text "id") (ownProperties b) = some d ∧
        env.context.visibility.shows d = true) ∧
      ¬ ∃ entry, e.held? (.text "id") = some entry ∧ (Expression.ofNode entry).Definite := by
  obtain ⟨env, henv, hgives⟩ : ∃ env, Environment.ofConfig {} [] = .ok env ∧
      ((compileAllOf env (within env (compileReference env) 3) (requiredApart.map .object) false).run
        ⟨{ name := some "Record" }, env.caches, []⟩).1.toOption.map (fun e =>
          (e.held? (.text "id")).map fun entry => (Expression.ofNode entry).hasModifier "optional") =
        some (some true) :=
    ⟨_, rfl, by decide +kernel⟩
  obtain ⟨e, hrun, hoptional⟩ := Option.map_eq_some_iff.mp hgives
  rw [Outcome.toOption_eq_some] at hrun
  have hinline : ∀ b ∈ requiredApart, InlineObject b := by
    simp only [requiredApart, List.forall_mem_cons, List.not_mem_nil, false_implies, implies_true,
      and_true]
    exact ⟨⟨rfl, by decide⟩, ⟨rfl, by decide⟩⟩
  obtain ⟨-, -, -, hspelled, -⟩ := effective_compileAllOf (by decide) hinline (by decide)
    (fun _ _ => Or.inl (Or.inl rfl)) (fun _ _ => False.elim) (Prod.ext hrun rfl)
  refine ⟨env, _, e, _, henv, rfl, Prod.ext hrun rfl, hinline, hspelled,
    ⟨_, .tail _ (.head _), by decide⟩,
    ⟨_, .head _, .object [(.text "type", .text "string")], rfl,
      by cases env.context.visibility <;> rfl⟩, ?_⟩
  rintro ⟨entry, hentry, hdefinite⟩
  rw [hentry] at hoptional
  cases hdefinite.symm.trans (Option.some.inj hoptional)

end Compile

end SchemaForge
