import SchemaForge.Proofs.Compile.Dependencies

/-!
# Properties that are not shown

Requests do not show read-only properties, and responses no write-only ones. If whatever is declared
under a name carries the flag, then no shape declares that name, however deep the shape stands in the
compiled tree and whichever keyword led there.

Shapes are made in two places, of the visible fields of an object and of what is left of a branch of
an `allOf`, and both ask each definition for its flag. That all definitions of a name carry it is a
lasting condition: filtering drops them, a branch only loses properties, and a reference has none.
-/

namespace SchemaForge

/-- The flag of properties that are not shown, if there is one. -/
def Visibility.hidingFlag : Visibility → Option String
  | .all => none
  | .request => some "readOnly"
  | .response => some "writeOnly"

/-- All that a schema declares under a name are objects with a flag that is set. -/
def Flagged (flag : String) (name : Scalar) (schema : Fields) : Prop :=
  ∀ properties definition, schema.value "properties" = .object properties →
    (name, definition) ∈ properties → ∃ fields : Fields, definition = .object fields ∧
      (fields.value flag).isSet = true

theorem flagged_iff {flag : String} {name : Scalar} {schema properties : Fields}
    (h : schema.value "properties" = .object properties) :
    Flagged flag name schema ↔ ∀ f ∈ properties, f.1 = name →
      ∃ fields ∈ f.2.fields?, (Fields.value fields flag).isSet = true := by
  constructor
  · rintro hflagged ⟨n, definition⟩ hmem rfl
    obtain ⟨fields, rfl, hset⟩ := hflagged properties definition h hmem
    exact ⟨fields, rfl, hset⟩
  · intro hall properties' definition hvalue hmem
    rw [h] at hvalue
    cases hvalue
    obtain ⟨fields, hfields, hset⟩ := hall _ hmem rfl
    cases definition with
    | object fs =>
      cases hfields
      exact ⟨_, rfl, hset⟩
    | scalar s => cases hfields
    | list vs => cases hfields

instance (flag : String) (name : Scalar) : DecidablePred (Flagged flag name) := fun schema =>
  match h : schema.value "properties" with
  | .object _ => decidable_of_iff _ (flagged_iff h).symm
  | .scalar _ => isTrue fun _ _ hvalue => nomatch h.symm.trans hvalue
  | .list _ => isTrue fun _ _ hvalue => nomatch h.symm.trans hvalue

namespace Compile

open Reference Ledger Expression

variable {env : Environment} {vis : Visibility} {flag : String} {name : Scalar} {schema : Fields}

/-- What carries the flag is not shown. -/
theorem shows_flagged (hflag : vis.hidingFlag = some flag) {fields : Fields}
    (h : (fields.value flag).isSet = true) : vis.shows (.object fields) = false := by
  cases vis with
  | all => cases hflag
  | request =>
    cases hflag
    simp [Visibility.shows, h]
  | response =>
    cases hflag
    simp [Visibility.shows, h]

theorem Flagged.not_shown (hflag : vis.hidingFlag = some flag) (h : Flagged flag name schema)
    {definition : Value} (hdeclared : DeclaresOwn schema name definition) :
    vis.shows definition = false := by
  obtain ⟨properties, hproperties, hmem⟩ := hdeclared
  rcases Value.fieldsIfSet_eq_ok hproperties with rfl | hvalue
  · exact absurd hmem List.not_mem_nil
  · obtain ⟨fields, rfl, hset⟩ := h properties definition hvalue hmem
    exact shows_flagged hflag hset

/-- Visible properties are declared, and shown. -/
theorem mem_filterVisible {definition : Value} : ∀ {fields kept : Fields},
    vis.filterVisible fields = .ok kept → (name, definition) ∈ kept →
    ∃ whole, (name, whole) ∈ fields ∧ vis.shows whole = true
  | [], _, h, hmem => by
    cases h
    exact absurd hmem List.not_mem_nil
  | (n, d) :: fields, kept, h, hmem => by
    have hrest : ∀ {kept}, vis.filterVisible fields = .ok kept → (name, definition) ∈ kept →
        ∃ whole, (name, whole) ∈ (n, d) :: fields ∧ vis.shows whole = true := by
      intro kept hkept hmem
      obtain ⟨whole, hwhole, hshown⟩ := mem_filterVisible hkept hmem
      exact ⟨whole, List.mem_cons_of_mem _ hwhole, hshown⟩
    rw [Visibility.filterVisible] at h
    split at h
    · rename_i hshown
      obtain ⟨filtered, -, h⟩ := Outcome.bind_eq_ok.mp h
      obtain ⟨kept', hkept, h⟩ := Outcome.bind_eq_ok.mp h
      cases h
      rcases List.mem_cons.mp hmem with heq | hmem
      · cases heq
        exact ⟨d, List.mem_cons_self, hshown⟩
      · exact hrest hkept hmem
    · exact hrest h hmem

/-- **That all definitions of a name carry the flag lasts.** -/
theorem lasting_flagged (hflag : vis.hidingFlag = some flag) : Lasting vis (Flagged flag name) where
  congr h hk := by
    rw [Flagged, hk "properties" (by decide)]
    exact h
  filtered := by
    intro schema schema' h hfiltered properties definition hvalue hmem
    rcases get?_filterFields (k := "properties") hfiltered with ⟨-, hnone⟩ | ⟨v, v', hv, hv', hf⟩
    · rw [Fields.value, hnone] at hvalue
      cases hvalue
    · have hv' : v' = .object properties := by rw [← hvalue, Fields.value, hv']; rfl
      have hv : schema.value "properties" = v := by rw [Fields.value, hv]; rfl
      subst hv'
      cases v with
      | object declared =>
        obtain ⟨kept, hkept, heq⟩ := Outcome.map_eq_ok.mp hf
        cases heq
        -- nothing is left under the name
        obtain ⟨whole, hwhole, hshown⟩ := mem_filterVisible hkept hmem
        obtain ⟨fields, rfl, hset⟩ := h declared whole hv hwhole
        rw [shows_flagged hflag hset] at hshown
        cases hshown
      | scalar s => cases hf
      | list vs => cases hf
  fewer := by
    intro names schema schema' h hreduced properties definition hvalue hmem
    obtain ⟨declared, hdeclared, hkept⟩ := properties_withoutProperties hreduced
    rw [hkept] at hvalue
    cases hvalue
    have hmem := List.mem_of_mem_filter hmem
    rcases Value.fieldsIfSet_eq_ok hdeclared with rfl | hdeclared
    · exact absurd hmem List.not_mem_nil
    · exact h declared definition hdeclared hmem
  refers _ _ := fun _ _ hvalue => by cases hvalue

/-- The books on shapes that do not declare a name. -/
def concealingLedger (owner : String) (name : Scalar) : Ledger where
  owner
  booked marks _ := .property name ∉ marks
  allows n := n ≠ name
  fails _ := True
  declares h hnames := by
    rintro (hmem | hmem)
    · exact h hmem
    · obtain ⟨n, heq, hne⟩ := hnames _ hmem
      cases heq
      exact hne rfl
  fault _ := trivial
  tooDeep _ _ := trivial
  notASchema _ _ := trivial

theorem indifferent_concealingLedger {owner : String} : (concealingLedger owner name).Indifferent := by
  intro marks dependencies dependencies' const h hmem
  rcases hmem with hmem | hmem
  · exact h hmem
  · cases hmem

theorem concealingRules (hctx : env.context.Built) {owner : String}
    (hflag : env.context.visibility.hidingFlag = some flag) :
    LedgerRules (concealingLedger owner name) env (compileReference env)
      (ValueEverywhere (Flagged flag name)) where
  dateTime := blank_dateTime hctx
  parts hs hfields hpart := by
    have hlasts : Lasting _ (Flagged flag name) := lasting_flagged hflag
    exact hpart.everywhere hlasts (visibleFields_everywhere hlasts hs hfields)
  declares := by
    intro schema fields hs hfields n definition hdeclares hshown heq
    obtain rfl : n = name := heq
    have hlasts : Lasting _ (Flagged flag n) := lasting_flagged hflag
    have hfields := visibleFields_everywhere hlasts hs hfields
    have hhidden : env.context.visibility.shows definition = false := by
      cases hdeclares with
      | own declared => exact Flagged.not_shown hflag hfields.here declared
      | branch held walked listed declared =>
        rw [← Fields.value_of_get? held] at walked
        obtain ⟨omitted, left, hreduced, hdeclared⟩ := declared
        have hbranch := hfields.walked (by decide) walked listed
        have hleft := reduceBranch_everywhere hlasts hbranch hreduced _ rfl
        exact Flagged.not_shown hflag (Everywhere.here hleft) hdeclared
    rw [hhidden] at hshown
    cases hshown
  references _ _ _ := indifferent_concealingLedger.compileReference_enters fun _ _ => trivial
  twice := compileReference_alike (both_steady _)

/-- **What is never to be shown is never declared**: in a request no shape of a compiled definition
has a property that is read-only wherever it is declared, and in a response none that is write-only,
at any depth and whatever was compiled before. -/
theorem hidden_undeclared (hctx : env.context.Built)
    (hflag : env.context.visibility.hidingFlag = some flag)
    (hhidden : ∀ f ∈ env.schemas, ValueEverywhere (Flagged flag name) f.2)
    {base : Environment} {calls : List Call} {p q : Progress} (hp : p.caches = after base.caches calls)
    {X : String} {e : Expression} {s : Session}
    (he : (compileNamed env X (env.schemas.value X)).run p = (.ok (e, s), q))
    {properties : List Property} (hshape : .shape properties ∈ e.toNode.walk) :
    ∀ declared ∈ properties, declared.name ≠ name := by
  have hdefinition : ValueEverywhere (Flagged flag name) (env.schemas.value X) := by
    cases hX : env.schemas.get? X with
    | some v =>
      rw [Fields.value_of_get? hX]
      exact hhidden _ (Fields.mem_of_get? hX)
    | none =>
      rw [Fields.value, hX]
      trivial
  have hroot : RootEnters (concealingLedger X name) env (compileReference env)
      (env.schemas.value X) :=
    fun _ _ _ _ _ _ => indifferent_concealingLedger.compileReference_enters fun _ _ => trivial
  have hown : EscapesOwn p.caches.patterns := by
    rw [hp]
    exact escapesOwn_after calls (escapesOwn_start base)
  rcases (concealingRules hctx hflag).compileNamedWith_ends hdefinition hroot (Set.notMem_empty _)
    hown he with ⟨f, hfailed, -⟩ | ⟨e', s', hok, hbooked⟩
  · cases hfailed
  · cases hok
    rintro declared hdeclared rfl
    exact hbooked (Node.property_mem_marks.mpr ⟨properties, hshape, declared, hdeclared, rfl⟩)

/-- An object with a read-only identifier, in a composition and among the items of an array. -/
def order : Fields :=
  let text : Fields := [(.text "type", .text "string")]
  let id : Value := .object (text ++ [(.text "readOnly", .bool true)])
  let item : Value := .object [(.text "type", .text "object"), (.text "properties", .object
    [(.text "id", id), (.text "name", .object text)])]
  [(.text "allOf", .list [
     item,
     .object [(.text "type", .text "object"), (.text "properties", .object
       [(.text "lines", .object [(.text "type", .text "array"), (.text "contains", item)]),
        (.text "id", id)])]])]

/-- The names that the shapes of a tree declare. -/
def declaredNames (n : Node) : List Scalar :=
  n.walk.flatMap fun m =>
    match m with
    | .shape properties => properties.map Property.name
    | _ => []

theorem hidden_undeclared_order :
    ∃ env p q e s, Environment.ofConfig { visibility := .request } [(.text "Order", .object order)] = .ok env ∧
      (compileNamed env "Order" (env.schemas.value "Order")).run p = (.ok (e, s), q) ∧
      declaredNames e.toNode = [.text "name", .text "lines", .text "name"] ∧
      ∀ properties, .shape properties ∈ e.toNode.walk →
        ∀ declared ∈ properties, declared.name ≠ .text "id" := by
  obtain ⟨env, henv, hflag, hschemas, hgives⟩ : ∃ env,
      Environment.ofConfig { visibility := .request } [(.text "Order", .object order)] = .ok env ∧
      env.context.visibility.hidingFlag = some "readOnly" ∧ env.schemas = [(.text "Order", .object order)] ∧
      ((compileNamed env "Order" (env.schemas.value "Order")).run
          ⟨{}, after env.caches [], []⟩).1.toOption.map (fun r => declaredNames r.1.toNode) =
        some [.text "name", .text "lines", .text "name"] :=
    ⟨_, rfl, rfl, rfl, by decide +kernel⟩
  have hhidden : ∀ f ∈ env.schemas, ValueEverywhere (Flagged "readOnly" (.text "id")) f.2 := by
    rw [hschemas]
    intro f hf
    rw [List.mem_singleton.mp hf]
    have hwithin : EverywhereWithin (Flagged "readOnly" (.text "id")) 5 order := by decide
    exact hwithin.everywhere
  have hproper : env.Proper ["Order"] :=
    Environment.proper_ofConfig ⟨by decide, by decide⟩ henv
  obtain ⟨e, s, q, hrun, hnames⟩ := exists_run_of_gives hgives
  exact ⟨env, _, q, e, s, henv, hrun, hnames,
    fun properties hshape => hidden_undeclared hproper.context hflag hhidden rfl hrun hshape⟩

end Compile

end SchemaForge
