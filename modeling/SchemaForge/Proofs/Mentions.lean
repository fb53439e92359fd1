import SchemaForge.Proofs.Duplicates
import SchemaForge.Proofs.Specification

/-!
# References in document order

Two walks go through the schemas of a document: one collects the names of references, the other one
checks that references point to schemas. Both keep a stack of the schemas still to be visited.

Here the references are listed by recursion over the schemas instead: what a schema itself mentions
comes first, and then what its subschemas mention, one after the other. The names that are collected
are those of the list without repetitions (`names_eq`), and the check fails at the first entry that
does not name a schema (`checkReferences_eq`).
-/

namespace SchemaForge.Reference

variable {schemas schema : Fields} {owner : Scalar} {place : Located} {path : String}

/-! ## Mentions -/

/-- A reference where it stands: the named schema that it is a part of, its place, and what stands
there. -/
structure Mention where
  owner : Scalar
  path : String
  target : Value
deriving DecidableEq, Repr

/-- What a schema itself mentions: its reference, if this is a text, and then the targets of its
discriminator mapping. -/
def ownMentions (owner : Scalar) (place : Located) : List Mention :=
  (match place.schema.value "$ref" with
    | .text ref => [⟨owner, place.path, .text ref⟩]
    | _ => []) ++
  (mappingOf place.schema).map fun f =>
    ⟨owner, place.path ++ "/discriminator/mapping/" ++ f.1.display, f.2⟩

theorem weight_le_stackWeight {stack : List Fields} (h : schema ∈ stack) :
    Value.weight (.object schema) ≤ stackWeight stack := by
  induction stack with
  | nil => cases h
  | cons s stack ih =>
    rw [stackWeight]
    rcases List.mem_cons.mp h with rfl | h
    · exact Nat.le_add_right _ _
    · exact Nat.le_add_left_of_le (ih h)

theorem weight_subschema_lt {p : Located} (h : p ∈ subschemas schema path) :
    Fields.weight p.schema < Fields.weight schema := by
  have hchild : p.schema ∈ children schema := by
    rw [← Specification.map_schema_subschemas schema path]
    exact List.mem_map_of_mem h
  have hweight := (weight_le_stackWeight hchild).trans (stackWeight_children schema)
  rw [Value.weight] at hweight
  omega

/-- What is mentioned in a schema and in everything inside it, a schema before its subschemas. -/
def mentions (owner : Scalar) (place : Located) : List Mention :=
  ownMentions owner place ++
    (subschemas place.schema place.path).attach.flatMap fun p => mentions owner p.1
  termination_by Fields.weight place.schema
  decreasing_by exact weight_subschema_lt p.2

theorem mentions_eq (owner : Scalar) (place : Located) :
    mentions owner place = ownMentions owner place ++
      (subschemas place.schema place.path).flatMap (mentions owner) := by
  rw [mentions, List.flatMap_subtype (g := mentions owner) fun _ _ => rfl, List.unattach_attach]

/-- What is mentioned in a value that stands at a place. -/
def mentionsOf (owner : Scalar) (path : String) : Value → List Mention
  | .object schema => mentions owner ⟨path, schema⟩
  | _ => []

/-- What is mentioned in named schemas, one schema after the other. -/
def mentionsIn (schemas : Fields) : List Mention :=
  schemas.flatMap fun f => mentionsOf f.1 ("#/components/schemas/" ++ f.1.display) f.2

/-! ## Stacks -/

/-- The stack after a visit: the subschemas of the schema that was visited stand in its place. -/
def next (place : Located) (stack : List Located) : List Located :=
  subschemas place.schema place.path ++ stack

theorem map_schema_next (place : Located) (stack : List Located) :
    (next place stack).map (·.schema) = children place.schema ++ stack.map (·.schema) := by
  rw [next, List.map_append, Specification.map_schema_subschemas]

/-- A visit makes the stack lighter. -/
theorem stackWeight_next_lt (place : Located) (stack : List Located) :
    stackWeight ((next place stack).map (·.schema)) <
      stackWeight ((place :: stack).map (·.schema)) := by
  rw [map_schema_next]
  exact stackWeight_step _ _

/-- **A visit takes from what a stack mentions what the schema itself mentions**, and leaves the
rest in its order. -/
theorem flatMap_mentions_cons (owner : Scalar) (place : Located) (stack : List Located) :
    (place :: stack).flatMap (mentions owner) =
      ownMentions owner place ++ (next place stack).flatMap (mentions owner) := by
  rw [List.flatMap_cons, mentions_eq, next, List.flatMap_append, List.append_assoc]

/-! ## Collected names -/

theorem ownNames_eq (owner : Scalar) (place : Located) :
    ownNames place.schema = (ownMentions owner place).mapM fun m => Naming.targetOf m.target := by
  unfold ownNames ownMentions
  rw [List.mapM_append, List.mapM_map]
  generalize place.schema.value "$ref" = v
  cases v with
  | scalar s => cases s <;> rfl
  | list vs => rfl
  | object fields => rfl

theorem addNew_append : ∀ (ns ns' found : List String),
    addNew found (ns ++ ns') = addNew (addNew found ns) ns'
  | [], _, _ => rfl
  | _ :: ns, ns', _ => addNew_append ns ns' _

/-- Adding what is new keeps the first occurrences. -/
theorem addNew_eraseDups : ∀ (ns l : List String), addNew l.eraseDups ns = (l ++ ns).eraseDups
  | [], l => by rw [addNew, List.append_nil]
  | n :: ns, l => by
    have hstep : (if l.eraseDups.contains n then l.eraseDups else l.eraseDups ++ [n]) =
        (l ++ [n]).eraseDups := by
      rw [eraseDups_concat]
      simp only [List.contains_iff_mem, List.mem_eraseDups]
    rw [addNew, hstep, addNew_eraseDups ns, List.append_assoc, List.singleton_append]

/-- **The walk adds the names that the schemas on its stack mention**, in their order. -/
theorem collect_eq (owner : Scalar) : ∀ (fuel : Nat) (stack : List Located) (found : List String),
    stackWeight (stack.map (·.schema)) ≤ fuel →
    collect fuel (stack.map (·.schema)) found = (do
      let ns ← (stack.flatMap (mentions owner)).mapM fun m => Naming.targetOf m.target
      return addNew found ns)
  | 0, [], found, _ => rfl
  | 0, place :: stack, found, hfuel => by
    have := stackWeight_next_lt place stack
    omega
  | fuel + 1, [], found, _ => rfl
  | fuel + 1, place :: stack, found, hfuel => by
    have hlt := stackWeight_next_lt place stack
    have ih := fun found => collect_eq owner fuel (next place stack) found (by omega)
    rw [List.map_cons, collect, ownNames_eq owner, flatMap_mentions_cons, List.mapM_append]
    simp only [← map_schema_next, ih, bind_assoc, pure_bind, addNew_append]

/-- **The names that a document refers to are those that it mentions, without repetitions.** -/
theorem names_eq (owner : Scalar) (path : String) (v : Value) :
    names v = (do
      let ns ← (mentionsOf owner path v).mapM fun m => Naming.targetOf m.target
      return ns.eraseDups) := by
  cases v with
  | object schema =>
    have h := collect_eq owner _ [⟨path, schema⟩] []
      (Nat.le_of_eq (stackWeight_singleton schema))
    rw [List.flatMap_singleton] at h
    rw [names, mentionsOf]
    refine h.trans (bind_congr fun ns => ?_)
    rw [← List.eraseDups_nil, addNew_eraseDups, List.nil_append]
  | scalar s => rfl
  | list vs => rfl

theorem mapM_targetOf : ∀ {ms : List Mention} {refs : List String},
    ms.map (·.target) = refs.map Value.text →
    (ms.mapM fun m => Naming.targetOf m.target) = .ok (refs.map Naming.targetName)
  | [], [], _ => rfl
  | m :: ms, ref :: refs, h => by
    rw [List.map_cons, List.map_cons, List.cons.injEq] at h
    rw [List.mapM_cons, h.1, mapM_targetOf h.2]
    rfl

/-! ## Checked references -/

namespace Mention

/-- What is mentioned names a schema. -/
def resolves (schemas : Fields) (m : Mention) : Bool :=
  match m.target with
  | .text ref => schemas.has (Naming.targetName ref)
  | _ => false

/-- What is wrong with a reference that names no schema; only texts are references. -/
def failure (m : Mention) : Failure :=
  match m.target with
  | .text ref => .unresolved ref m.path m.owner
  | _ => .fault .noMember

end Mention

/-- The first reference in a list that names no schema is the failure. -/
def firstFailure (schemas : Fields) (ms : List Mention) : Except Failure Unit :=
  match ms.find? fun m => !m.resolves schemas with
  | some m => .error m.failure
  | none => .ok ()

theorem firstFailure_append (schemas : Fields) (ms ms' : List Mention) :
    firstFailure schemas (ms ++ ms') = (do firstFailure schemas ms; firstFailure schemas ms') := by
  unfold firstFailure
  rw [List.find?_append]
  cases ms.find? fun m => !m.resolves schemas <;> rfl

theorem firstFailure_flatMap {α : Type} (schemas : Fields) (f : α → List Mention) : ∀ l : List α,
    firstFailure schemas (l.flatMap f) = l.forM fun a => firstFailure schemas (f a)
  | [] => rfl
  | a :: l => by
    rw [List.flatMap_cons, firstFailure_append, firstFailure_flatMap schemas f l]
    rfl

theorem firstFailure_cons (schemas : Fields) (m : Mention) (ms : List Mention) :
    firstFailure schemas (m :: ms) =
      if m.resolves schemas then firstFailure schemas ms else .error m.failure := by
  unfold firstFailure
  rw [List.find?_cons]
  cases m.resolves schemas <;> rfl

theorem checkMapping_eq (schemas : Fields) (owner : Scalar) (path : String) : ∀ targets : Fields,
    Specification.checkMapping schemas owner path targets =
      firstFailure schemas (targets.map fun f =>
        ⟨owner, path ++ "/discriminator/mapping/" ++ f.1.display, f.2⟩)
  | [] => rfl
  | (value, target) :: rest => by
    rw [List.map_cons, firstFailure_cons, ← checkMapping_eq schemas owner path rest]
    cases target with
    | scalar s => cases s <;> rfl
    | list vs => rfl
    | object fields => rfl

theorem checkOwn_eq (schemas : Fields) (owner : Scalar) (place : Located) :
    (do Specification.checkOwn schemas owner place
        Specification.checkMapping schemas owner place.path (mappingOf place.schema)) =
      firstFailure schemas (ownMentions owner place) := by
  rw [ownMentions, firstFailure_append, checkMapping_eq, Specification.checkOwn]
  generalize place.schema.value "$ref" = v
  cases v with
  | scalar s =>
    cases s with
    | text ref => simp only [firstFailure_cons]; rfl
    | _ => rfl
  | list vs => rfl
  | object fields => rfl

/-- **The check fails at the first reference that the schemas on its stack mention and that names no
schema.** -/
theorem checkStack_eq : ∀ (fuel : Nat) (stack : List Located),
    stackWeight (stack.map (·.schema)) ≤ fuel →
    Specification.checkStack schemas owner fuel stack =
      firstFailure schemas (stack.flatMap (mentions owner))
  | 0, [], _ => rfl
  | 0, place :: stack, hfuel => by
    have := stackWeight_next_lt place stack
    omega
  | fuel + 1, [], _ => rfl
  | fuel + 1, place :: stack, hfuel => by
    have hlt := stackWeight_next_lt place stack
    rw [Specification.checkStack, ← bind_assoc, checkOwn_eq, flatMap_mentions_cons,
      firstFailure_append, ← checkStack_eq fuel (next place stack) (by omega)]
    rfl

theorem checkSchema_eq (schemas : Fields) (owner : Scalar) (v : Value) :
    Specification.checkSchema schemas owner v =
      firstFailure schemas (mentionsOf owner ("#/components/schemas/" ++ owner.display) v) := by
  cases v with
  | object schema =>
    have hfuel := Nat.le_of_eq (stackWeight_singleton schema)
    rw [Specification.checkSchema, checkStack_eq _ [_] hfuel, List.flatMap_singleton]
    rfl
  | scalar s => rfl
  | list vs => rfl

/-- **The check fails at the first reference of the document that names no schema.** -/
theorem checkReferences_eq (schemas : Fields) :
    Specification.checkReferences schemas = firstFailure schemas (mentionsIn schemas) := by
  rw [mentionsIn, firstFailure_flatMap, Specification.checkReferences]
  simp only [checkSchema_eq]

/-- **Both walks go through a document in the order of the list.** The first collects the names in
it, each where it occurs first, unless a target is no text; the second fails at the first reference
in it that names no schema. -/
theorem walks_in_order (owner : Scalar) (path : String) (v : Value) (schemas : Fields) :
    (∀ refs : List String, (mentionsOf owner path v).map (·.target) = refs.map Value.text →
      names v = .ok (refs.map Naming.targetName).eraseDups) ∧
    ((∃ m ∈ mentionsOf owner path v, ∀ ref, m.target ≠ .text ref) → names v = .error .noMember) ∧
    Specification.checkReferences schemas =
      match (mentionsIn schemas).find? fun m => !m.resolves schemas with
      | some m => .error m.failure
      | none => .ok () := by
  refine ⟨fun refs hrefs => ?_, fun ⟨m, hm, hno⟩ => ?_, checkReferences_eq schemas⟩
  · rw [names_eq owner path, mapM_targetOf hrefs]
    rfl
  · have hfails : ∀ n, Naming.targetOf m.target ≠ .ok n := by
      intro n hn
      obtain ⟨ref, href, -⟩ := targetOf_eq_ok hn
      exact hno ref href
    rw [names_eq owner path, Outcome.mapM_eq_error (fun m e' => targetOf_eq_error) ⟨m, hm, hfails⟩]
    rfl

/-- A schema whose only entry is a reference. -/
def pointing (ref : String) : Fields := [(.text "$ref", .text ref)]

/-- A schema with references of its own and inside of it; the later ones are met first. -/
def referring : Fields :=
  [(.text "allOf", .list [.object (pointing "#/components/schemas/B")]),
   (.text "properties", .object [(.text "d", .object [(.text "items",
     .object (pointing "#/components/schemas/D"))])]),
   (.text "discriminator", .object [(.text "mapping", .object [(.text "c", .text "C")])]),
   (.text "$ref", .text "#/components/schemas/B")]

/-- A specification with this schema, in which one reference names no schema. -/
def referringSchemas : Fields :=
  [(.text "A", .object referring), (.text "B", .object []), (.text "C", .object [])]

theorem mentions_pointing (path ref : String) :
    mentions owner ⟨path, pointing ref⟩ = [⟨owner, path, .text ref⟩] := by
  rw [mentions_eq]
  rfl

theorem mentions_referring (owner : Scalar) (path : String) :
    mentions owner ⟨path, referring⟩ =
      [⟨owner, path, .text "#/components/schemas/B"⟩,
       ⟨owner, path ++ "/discriminator/mapping/" ++ "c", .text "C"⟩,
       ⟨owner, path ++ "/" ++ "properties" ++ "/" ++ "d" ++ "/" ++ "items",
        .text "#/components/schemas/D"⟩,
       ⟨owner, path ++ "/" ++ "allOf" ++ "/" ++ "0", .text "#/components/schemas/B"⟩] := by
  have hproperty : mentions owner ⟨path ++ "/" ++ "properties" ++ "/" ++ "d",
      [(.text "items", .object (pointing "#/components/schemas/D"))]⟩ =
        mentions owner ⟨path ++ "/" ++ "properties" ++ "/" ++ "d" ++ "/" ++ "items",
          pointing "#/components/schemas/D"⟩ := by
    rw [mentions_eq]
    exact List.append_nil _
  have hsubschemas : subschemas referring path =
      [⟨path ++ "/" ++ "properties" ++ "/" ++ "d",
        [(.text "items", .object (pointing "#/components/schemas/D"))]⟩,
       ⟨path ++ "/" ++ "allOf" ++ "/" ++ "0", pointing "#/components/schemas/B"⟩] := rfl
  rw [mentions_eq, hsubschemas, List.flatMap_cons, List.flatMap_cons, hproperty,
    mentions_pointing, mentions_pointing]
  rfl

theorem walks_in_order_referring :
    (mentionsOf (.text "A") "#" (.object referring)).map (·.target) =
      ["#/components/schemas/B", "C", "#/components/schemas/D", "#/components/schemas/B"].map
        Value.text ∧
    names (.object referring) = .ok ["B", "C", "D"] ∧
    Specification.checkReferences referringSchemas =
      .error (.unresolved "#/components/schemas/D" "#/components/schemas/A/properties/d/items"
        (.text "A")) := by
  have hmentions : (mentionsOf (.text "A") "#" (.object referring)).map (·.target) =
      ["#/components/schemas/B", "C", "#/components/schemas/D", "#/components/schemas/B"].map
        Value.text := by
    rw [mentionsOf, mentions_referring]
    rfl
  obtain ⟨hnames, -, hcheck⟩ := walks_in_order (.text "A") "#" (.object referring) referringSchemas
  refine ⟨hmentions, ?_, ?_⟩
  · rw [hnames _ hmentions]
    rfl
  · have hall : mentionsIn referringSchemas =
        mentions (.text "A") ⟨"#/components/schemas/A", referring⟩ := by
      have hempty : ∀ owner path, mentions owner ⟨path, []⟩ = [] := fun owner path => by
        rw [mentions_eq]
        rfl
      rw [mentionsIn, referringSchemas, List.flatMap_cons, List.flatMap_cons, List.flatMap_cons,
        mentionsOf, mentionsOf, mentionsOf, hempty, hempty]
      exact List.append_nil _
    rw [hcheck, hall, mentions_referring]
    rfl

/-- A target that is no text has no name. -/
theorem not_exists_names_numberTarget : ¬ ∃ found, names (.object [(.text "discriminator",
    .object [(.text "mapping", .object [(.text "x", .int 1)])])]) = .ok found := by
  rintro ⟨found, h⟩
  have hnames : names (.object [(.text "discriminator",
    .object [(.text "mapping", .object [(.text "x", .int 1)])])]) = .error .noMember := rfl
  rw [hnames] at h
  cases h

end SchemaForge.Reference
