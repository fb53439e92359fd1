import SchemaForge.Proofs.Compile.Failures
import SchemaForge.Proofs.Compile.History

/-!
# Calls that share a session

Several calls of the compiler may work on one session, each on what the one before it left, through
whatever view they go and whether they fail or not. A run may break off at any depth, but on its way
out it takes back every level that it went down, and it never takes back what it gathered. So between
two calls the session is as deep as it was at the start, and its lists only grow.
-/

namespace SchemaForge

/-- A session that gathered nothing twice. -/
structure Session.Unrepeated (s : Session) : Prop where
  dependencies : s.dependencies.Nodup
  conflicts : s.conflicts.Nodup
  warnings : s.warnings.Nodup

theorem Session.Unrepeated.new (name : Option String) : Session.Unrepeated { name } :=
  ⟨List.nodup_nil, List.nodup_nil, List.nodup_nil⟩

theorem Session.Extends.unrepeated {s t : Session} (h : s.Extends t) (hs : s.Unrepeated) :
    t.Unrepeated :=
  ⟨h.dependencies.nodup hs.dependencies, h.conflicts.nodup hs.conflicts, h.warnings.nodup hs.warnings⟩

namespace Compile

/-- What a call leaves behind of the progress that it finds, whether it succeeds or fails. -/
def Call.proceed (c : Call) (p : Progress) : Progress := (c.compile.run p).2

/-- What some calls leave behind, each of which goes on from where the one before it ended. -/
def proceedAll (p : Progress) (calls : List Call) : Progress :=
  calls.foldl (fun p c => c.proceed p) p

/-- A call for a schema works on the session at hand; a definition has a session of its own. -/
theorem Call.proceed_extends (c : Call) (p : Progress) :
    p.session.Extends (c.proceed p).session := by
  unfold Call.proceed Call.compile
  split
  · rename_i v top branch _
    rcases hrun : (compileSchema c.env v top branch).run p with ⟨result, q⟩
    have hgrown : p.session.Extends q.session := by
      have hall := compileSchema_extends c.env v top branch p
      rwa [hrun] at hall
    cases result with
    | error f =>
      rw [run_bind_error hrun]
      exact hgrown
    | ok e =>
      rw [run_bind_ok hrun]
      exact hgrown
  · exact .refl _

theorem proceedAll_extends (calls : List Call) (p : Progress) :
    p.session.Extends (proceedAll p calls).session := by
  induction calls generalizing p with
  | nil => exact .refl _
  | cons c calls ih => exact (c.proceed_extends p).trans (ih (c.proceed p))

/--
**A shared session stays consistent, whatever its calls end in.** Let any calls, through any views,
work on one session that has gathered nothing twice, as a new one has not. After each of them the
session is as deep as before it, the dependencies, conflicts and warnings begin with those from before
it, and nothing is gathered twice.
-/
theorem shared_session_consistent {p : Progress} (hp : p.session.Unrepeated) (calls : List Call)
    (c : Call) :
    (c.proceed (proceedAll p calls)).session.depth = (proceedAll p calls).session.depth ∧
      (proceedAll p calls).session.Extends (c.proceed (proceedAll p calls)).session ∧
      (c.proceed (proceedAll p calls)).session.Unrepeated := by
  have hcall : (proceedAll p calls).session.Extends (c.proceed (proceedAll p calls)).session :=
    c.proceed_extends _
  exact ⟨hcall.depth, hcall, hcall.unrepeated ((proceedAll_extends calls p).unrepeated hp)⟩

/-- An object whose owner is known but whose tags refer to nothing, two levels further down. -/
def brokenPet : Value :=
  .object [(.text "properties", .object [
    (.text "owner", .object [(.text "$ref", .text "#/components/schemas/Person")]),
    (.text "tags", .object [(.text "type", .text "array"),
      (.text "items", .object [(.text "$ref", .text "#/components/schemas/Tag")])])])]

/-- The call for a definition in the session at hand. -/
def Call.ofDefinition (env : Environment) (v : Value) : Call := { env, task := .schema v true false }

/-- It is compiled twice in one session, and fails twice. -/
theorem shared_session_consistent_brokenPet :
    ∃ env p, Environment.ofSchemas [(.text "Person", .object [])] = .ok env ∧
      p.session.Unrepeated ∧
      ((Call.ofDefinition env brokenPet).compile.run p).1.isOk = false ∧
      (proceedAll p [Call.ofDefinition env brokenPet]).session.dependencies = ["Person"] ∧
      ((Call.ofDefinition env brokenPet).proceed
        (proceedAll p [Call.ofDefinition env brokenPet])).session.dependencies = ["Person"] ∧
      ((Call.ofDefinition env brokenPet).proceed
        (proceedAll p [Call.ofDefinition env brokenPet])).session.depth =
          (proceedAll p [Call.ofDefinition env brokenPet]).session.depth := by
  obtain ⟨env, henv, hfails, hgathered, hgathered'⟩ : ∃ env,
      Environment.ofSchemas [(.text "Person", .object [])] = .ok env ∧
      ((Call.ofDefinition env brokenPet).compile.run
        ⟨{ name := some "Pet" }, env.caches, []⟩).1.isOk = false ∧
      (proceedAll ⟨{ name := some "Pet" }, env.caches, []⟩
        [Call.ofDefinition env brokenPet]).session.dependencies = ["Person"] ∧
      ((Call.ofDefinition env brokenPet).proceed (proceedAll ⟨{ name := some "Pet" }, env.caches, []⟩
        [Call.ofDefinition env brokenPet])).session.dependencies = ["Person"] :=
    ⟨_, rfl, by decide +kernel, by decide +kernel, by decide +kernel⟩
  exact ⟨env, _, henv, .new _, hfails, hgathered, hgathered', (shared_session_consistent
    (.new (some "Pet")) [Call.ofDefinition env brokenPet] (Call.ofDefinition env brokenPet)).1⟩

end Compile

end SchemaForge
