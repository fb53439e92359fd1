import SchemaForge.Proofs.Reference.Graph
import SchemaForge.Usage

/-!
# Usage is reachability

The operations of a document refer to schemas directly, some for requests and some for responses.
What the analysis finds from there are all schemas that these names lead to along dependencies, and
the usage of a schema says from which of the two it can be reached.

It fails only where something is not of the form it has to be: where a mapping of paths, responses
or schemas is none, where parameters cannot be walked over, or where a discriminator mapping has a
target that is no text. The last counts only in the schemas of operations and in those that are
reached.
-/

namespace SchemaForge.Usage

open Reference Relation

/-! ## What operations refer to -/

/-- An operation of a path, with the parameters that it shares with the others. -/
inductive OperationOf : Value → Value → Fields → Prop where
  | listed {item operation : Fields} {method : String} (known : method ∈ methods)
      (held : item.value method = .object operation) :
      OperationOf (.object item) (item.value "parameters") operation

/-- An operation under some paths. -/
inductive OperationIn (paths shared : Value) (operation : Fields) : Prop where
  | under {items : Fields} {path : Scalar} {item : Value} (read : paths.fieldsIfSet = .ok items)
      (listed : (path, item) ∈ items) (of : OperationOf item shared operation)

/-- A schema that an operation has in its requests: in the body or for a parameter. -/
inductive Sent (shared : Value) (operation : Fields) (v : Value) : Prop where
  | body (held : v ∈ contentSchemas (operation.value "requestBody"))
  | parameter {vs ws : List Value} (shared : shared.walkIfSet = .ok vs)
      (own : (operation.value "parameters").walkIfSet = .ok ws)
      (held : v ∈ parameterSchemas (vs ++ ws))

/-- A schema that an operation has in its responses. -/
inductive Received (operation : Fields) (v : Value) : Prop where
  | answer {answers : Fields} {status : Scalar} {response : Value}
      (read : (operation.value "responses").fieldsIfSet = .ok answers)
      (listed : (status, response) ∈ answers) (held : v ∈ contentSchemas response)

/-- A schema refers to a name, in itself or in a schema inside it. -/
def Refers (v : Value) (n : String) : Prop := ∃ found, names v = .ok found ∧ n ∈ found

/-- A name that some operation refers to for its requests. -/
def Sends (paths : Value) (n : String) : Prop :=
  ∃ shared operation v, OperationIn paths shared operation ∧ Sent shared operation v ∧ Refers v n

/-- A name that some operation refers to for its responses. -/
def Receives (paths : Value) (n : String) : Prop :=
  ∃ shared operation v, OperationIn paths shared operation ∧ Received operation v ∧ Refers v n

/-- An operation from which all its schemas, and the names in them, can be read. -/
structure ReadableOperation (shared : Value) (operation : Fields) : Prop where
  parameters : ∃ vs ws, shared.walkIfSet = .ok vs ∧
    (operation.value "parameters").walkIfSet = .ok ws
  answers : ∃ answers, (operation.value "responses").fieldsIfSet = .ok answers
  sent : ∀ v, Sent shared operation v → ValueTextTargets v
  received : ∀ v, Received operation v → ValueTextTargets v

/-- Paths from which all operations can be read. -/
structure ReadablePaths (paths : Value) : Prop where
  items : ∃ items, paths.fieldsIfSet = .ok items
  operations : ∀ shared operation, OperationIn paths shared operation →
    ReadableOperation shared operation

/-! ## Reading operations -/

/-- What a step says of some schemas, the ones sent and the ones received: it succeeds on a
condition, and then it gives the names that the schemas refer to. -/
structure Yields (x : Except Fault Direct) (readable : Prop) (sent received : Value → Prop) :
    Prop where
  ok_iff : (∃ d, x = .ok d) ↔ readable
  request : ∀ d, x = .ok d → ∀ n, n ∈ d.request ↔ ∃ v, sent v ∧ Refers v n
  response : ∀ d, x = .ok d → ∀ n, n ∈ d.response ↔ ∃ v, received v ∧ Refers v n

section Yields

variable {x : Except Fault Direct} {readable readable' : Prop}
  {sent received sent' received' : Value → Prop}

theorem Yields.congr (h : Yields x readable sent received) (hreadable : readable ↔ readable')
    (hsent : ∀ v, sent v ↔ sent' v) (hreceived : ∀ v, received v ↔ received' v) :
    Yields x readable' sent' received' := by
  obtain rfl : sent = sent' := funext fun v => propext (hsent v)
  obtain rfl : received = received' := funext fun v => propext (hreceived v)
  obtain rfl : readable = readable' := propext hreadable
  exact h

theorem yields_none : Yields (.ok {}) True (fun _ => False) fun _ => False where
  ok_iff := ⟨fun _ => trivial, fun _ => ⟨_, rfl⟩⟩
  request d hd n := by
    cases hd
    simp
  response d hd n := by
    cases hd
    simp

theorem mem_foldl_append (n : String) : ∀ (found : List Direct) (d : Direct),
    (n ∈ (found.foldl Direct.append d).request ↔ n ∈ d.request ∨ ∃ e ∈ found, n ∈ e.request) ∧
      (n ∈ (found.foldl Direct.append d).response ↔ n ∈ d.response ∨ ∃ e ∈ found, n ∈ e.response)
  | [], d => by simp
  | e :: found, d => by
    obtain ⟨hrequest, hresponse⟩ := mem_foldl_append n found (d.append e)
    rw [List.foldl_cons, hrequest, hresponse]
    simp [Direct.append, or_assoc]

/-- **What several steps say is what each of them says.** -/
theorem yields_all {α : Type} {l : List α} {f : α → Except Fault Direct} {readable : α → Prop}
    {sent received : α → Value → Prop}
    (h : ∀ x ∈ l, Yields (f x) (readable x) (sent x) (received x)) :
    Yields (do let found ← l.mapM f; return found.foldl Direct.append {}) (∀ x ∈ l, readable x)
      (fun v => ∃ x ∈ l, sent x v) fun v => ∃ x ∈ l, received x v := by
  have hgather : ∀ {found : List Direct}, l.mapM f = .ok found →
      ∀ {part : Direct → List String} {has : α → Value → Prop},
      (∀ x ∈ l, ∀ d, f x = .ok d → ∀ n, n ∈ part d ↔ ∃ v, has x v ∧ Refers v n) →
      ∀ n, (∃ d ∈ found, n ∈ part d) ↔ ∃ v, (∃ x ∈ l, has x v) ∧ Refers v n := by
    intro found hfound part has hpart n
    have hall := Outcome.forall₂_of_mapM hfound
    constructor
    · rintro ⟨d, hd, hn⟩
      obtain ⟨x, hx, hxd⟩ := Outcome.exists_left_of_mem hall hd
      obtain ⟨v, hv, hrefers⟩ := (hpart x hx d hxd n).mp hn
      exact ⟨v, ⟨x, hx, hv⟩, hrefers⟩
    · rintro ⟨v, ⟨x, hx, hv⟩, hrefers⟩
      obtain ⟨d, hd, hxd⟩ := Outcome.exists_right_of_mem hall hx
      exact ⟨d, hd, (hpart x hx d hxd n).mpr ⟨v, hv, hrefers⟩⟩
  refine ⟨⟨?_, fun hall => ?_⟩, fun d hd n => ?_, fun d hd n => ?_⟩
  · rintro ⟨d, hd⟩ x hx
    obtain ⟨found, hfound, -⟩ := Outcome.bind_eq_ok.mp hd
    obtain ⟨e, -, he⟩ := Outcome.exists_right_of_mem (Outcome.forall₂_of_mapM hfound) hx
    exact (h x hx).ok_iff.mp ⟨e, he⟩
  · obtain ⟨found, hfound⟩ :=
      Outcome.exists_mapM_of_forall fun x hx => (h x hx).ok_iff.mpr (hall x hx)
    exact ⟨_, Outcome.bind_eq_ok.mpr ⟨found, hfound, rfl⟩⟩
  · obtain ⟨found, hfound, hd⟩ := Outcome.bind_eq_ok.mp hd
    cases hd
    rw [(mem_foldl_append n found {}).1, ← hgather hfound fun x hx => (h x hx).request]
    simp
  · obtain ⟨found, hfound, hd⟩ := Outcome.bind_eq_ok.mp hd
    cases hd
    rw [(mem_foldl_append n found {}).2, ← hgather hfound fun x hx => (h x hx).response]
    simp

end Yields

/-- The names in some schemas can be read if their mappings have texts for targets. -/
theorem namesIn_eq_ok {vs : List Value} {found : List String} (h : namesIn vs = .ok found) :
    (∀ v ∈ vs, ValueTextTargets v) ∧ ∀ n, n ∈ found ↔ ∃ v ∈ vs, Refers v n := by
  obtain ⟨each, heach, h⟩ := Outcome.bind_eq_ok.mp h
  cases h
  have hall := Outcome.forall₂_of_mapM heach
  refine ⟨fun v hv => ?_, fun n => ?_⟩
  · obtain ⟨ns, -, hns⟩ := Outcome.exists_right_of_mem hall hv
    exact names_ok_iff.mp ⟨ns, hns⟩
  · rw [List.mem_flatten]
    constructor
    · rintro ⟨ns, hns, hn⟩
      obtain ⟨v, hv, hvns⟩ := Outcome.exists_left_of_mem hall hns
      exact ⟨v, hv, ns, hvns, hn⟩
    · rintro ⟨v, hv, ns, hvns, hn⟩
      obtain ⟨ns', hns', hvns'⟩ := Outcome.exists_right_of_mem hall hv
      rw [hvns] at hvns'
      cases hvns'
      exact ⟨ns, hns', hn⟩

theorem exists_namesIn {vs : List Value} (h : ∀ v ∈ vs, ValueTextTargets v) :
    ∃ found, namesIn vs = .ok found := by
  obtain ⟨each, heach⟩ := Outcome.exists_mapM_of_forall fun v hv => names_ok_iff.mpr (h v hv)
  exact ⟨_, Outcome.bind_eq_ok.mpr ⟨each, heach, rfl⟩⟩

theorem mem_sent {shared : Value} {operation : Fields} {vs ws : List Value} {v : Value}
    (hshared : shared.walkIfSet = .ok vs)
    (hown : (operation.value "parameters").walkIfSet = .ok ws) :
    Sent shared operation v ↔
      v ∈ contentSchemas (operation.value "requestBody") ∨ v ∈ parameterSchemas (vs ++ ws) := by
  constructor
  · rintro (held | ⟨hvs, hws, held⟩)
    · exact Or.inl held
    · rw [hshared] at hvs
      rw [hown] at hws
      cases hvs
      cases hws
      exact Or.inr held
  · rintro (held | held)
    · exact .body held
    · exact .parameter hshared hown held

theorem mem_received {operation answers : Fields} {v : Value}
    (hanswers : (operation.value "responses").fieldsIfSet = .ok answers) :
    Received operation v ↔ v ∈ answers.flatMap fun f => contentSchemas f.2 := by
  rw [List.mem_flatMap]
  constructor
  · rintro ⟨read, listed, held⟩
    rw [hanswers] at read
    cases read
    exact ⟨_, listed, held⟩
  · rintro ⟨f, hf, held⟩
    exact .answer hanswers hf held

/-- **What one operation says.** -/
theorem ofOperation_yields (shared : Value) (operation : Fields) :
    Yields (ofOperation shared operation) (ReadableOperation shared operation)
      (Sent shared operation) (Received operation) := by
  have hread : ∀ {d : Direct}, ofOperation shared operation = .ok d →
      ReadableOperation shared operation ∧
        (∀ n, n ∈ d.request ↔ ∃ v, Sent shared operation v ∧ Refers v n) ∧
        ∀ n, n ∈ d.response ↔ ∃ v, Received operation v ∧ Refers v n := by
    intro d h
    obtain ⟨body, hbody, h⟩ := Outcome.bind_eq_ok.mp h
    obtain ⟨answers, hanswers, h⟩ := Outcome.bind_eq_ok.mp h
    obtain ⟨received, hreceived, h⟩ := Outcome.bind_eq_ok.mp h
    obtain ⟨vs, hvs, h⟩ := Outcome.bind_eq_ok.mp h
    obtain ⟨ws, hws, h⟩ := Outcome.bind_eq_ok.mp h
    obtain ⟨parameters, hparameters, h⟩ := Outcome.bind_eq_ok.mp h
    cases h
    obtain ⟨hbody, hinBody⟩ := namesIn_eq_ok hbody
    obtain ⟨hreceived, hinReceived⟩ := namesIn_eq_ok hreceived
    obtain ⟨hparameters, hinParameters⟩ := namesIn_eq_ok hparameters
    refine ⟨⟨⟨vs, ws, hvs, hws⟩, ⟨answers, hanswers⟩, fun v hv => ?_, fun v hv => ?_⟩,
      fun n => ?_, fun n => ?_⟩
    · exact ((mem_sent hvs hws).mp hv).elim (hbody v) (hparameters v)
    · exact hreceived v ((mem_received hanswers).mp hv)
    · simp only [List.mem_append, hinBody, hinParameters, mem_sent hvs hws, or_and_right, exists_or]
    · simp only [hinReceived, mem_received hanswers]
  refine ⟨⟨fun ⟨d, hd⟩ => (hread hd).1, fun h => ?_⟩, fun d hd => (hread hd).2.1,
    fun d hd => (hread hd).2.2⟩
  obtain ⟨⟨vs, ws, hvs, hws⟩, ⟨answers, hanswers⟩, hsent, hreceived⟩ := h
  obtain ⟨body, hbody⟩ := exists_namesIn fun v hv => hsent v ((mem_sent hvs hws).mpr (Or.inl hv))
  obtain ⟨parameters, hparameters⟩ :=
    exists_namesIn fun v hv => hsent v ((mem_sent hvs hws).mpr (Or.inr hv))
  obtain ⟨received, hreceived⟩ :=
    exists_namesIn fun v hv => hreceived v ((mem_received hanswers).mpr hv)
  refine ⟨⟨body ++ parameters, received⟩, ?_⟩
  simp only [ofOperation, hbody, hanswers, hreceived, hvs, hws, hparameters, Outcome.ok_bind]
  rfl

/-- What a path says of one of the methods. -/
theorem ofMethod_yields (item : Fields) (method : String) :
    Yields
      (match item.value method with
        | .object operation => ofOperation (item.value "parameters") operation
        | _ => .ok {})
      (∀ operation, item.value method = .object operation →
        ReadableOperation (item.value "parameters") operation)
      (fun v => ∃ operation, item.value method = .object operation ∧
        Sent (item.value "parameters") operation v)
      fun v => ∃ operation, item.value method = .object operation ∧ Received operation v := by
  split
  · rename_i operation hoperation
    rw [hoperation]
    refine (ofOperation_yields (item.value "parameters") operation).congr ?_
      (fun v => ?_) fun v => ?_
    all_goals simp
  · rename_i hnone
    have hne : ∀ operation, item.value method ≠ .object operation := hnone
    refine yields_none.congr ?_ (fun v => ?_) fun v => ?_
    all_goals simp [hne]

theorem exists_method_iff (item : Fields) (P : Value → Fields → Prop) :
    (∃ method ∈ methods, ∃ operation, item.value method = .object operation ∧
        P (item.value "parameters") operation) ↔
      ∃ shared operation, OperationOf (.object item) shared operation ∧ P shared operation := by
  constructor
  · rintro ⟨method, known, operation, held, h⟩
    exact ⟨_, operation, .listed known held, h⟩
  · rintro ⟨_, operation, ⟨known, held⟩, h⟩
    exact ⟨_, known, operation, held, h⟩

theorem ofPath_yields (item : Value) :
    Yields (ofPath item)
      (∀ shared operation, OperationOf item shared operation → ReadableOperation shared operation)
      (fun v => ∃ shared operation, OperationOf item shared operation ∧ Sent shared operation v)
      fun v => ∃ shared operation, OperationOf item shared operation ∧ Received operation v := by
  have hnone : ∀ {item : Value}, (∀ fields, item ≠ .object fields) →
      ∀ shared operation, ¬ OperationOf item shared operation := by
    rintro _ hne shared operation ⟨known, held⟩
    exact hne _ rfl
  by_cases hobject : ∃ fields, item = .object fields
  · obtain ⟨fields, rfl⟩ := hobject
    refine (yields_all fun method _ => ofMethod_yields fields method).congr ?_
      (fun v => exists_method_iff fields fun shared operation => Sent shared operation v)
      fun v => exists_method_iff fields fun _ operation => Received operation v
    constructor
    · rintro h _ operation ⟨known, held⟩
      exact h _ known operation held
    · exact fun h method known operation held => h _ operation (.listed known held)
  · have hne := not_exists.mp hobject
    have hempty : ofPath item = .ok {} := by
      unfold ofPath
      split
      · exact absurd rfl (hne _)
      · rfl
    rw [hempty]
    refine yields_none.congr ?_ (fun v => ?_) fun v => ?_
    all_goals simp [hnone hne]

theorem exists_item_iff {paths : Value} {items : Fields} (hitems : paths.fieldsIfSet = .ok items)
    (P : Value → Fields → Prop) :
    (∃ f ∈ items, ∃ shared operation, OperationOf f.2 shared operation ∧ P shared operation) ↔
      ∃ shared operation, OperationIn paths shared operation ∧ P shared operation := by
  constructor
  · rintro ⟨f, hf, shared, operation, of, h⟩
    exact ⟨shared, operation, .under hitems hf of, h⟩
  · rintro ⟨shared, operation, ⟨read, listed, of⟩, h⟩
    rw [hitems] at read
    cases read
    exact ⟨_, listed, shared, operation, of, h⟩

/-- **What the operations of a document say.** -/
theorem ofPaths_yields (paths : Value) :
    Yields (ofPaths paths) (ReadablePaths paths)
      (fun v => ∃ shared operation, OperationIn paths shared operation ∧ Sent shared operation v)
      fun v => ∃ shared operation, OperationIn paths shared operation ∧ Received operation v := by
  cases hitems : paths.fieldsIfSet with
  | error f =>
    have herror : ofPaths paths = .error f := by
      unfold ofPaths
      rw [hitems]
      rfl
    rw [herror]
    refine ⟨⟨fun ⟨d, hd⟩ => (nomatch hd), fun h => ?_⟩, fun d hd => (nomatch hd),
      fun d hd => (nomatch hd)⟩
    obtain ⟨items, hread⟩ := h.items
    rw [hitems] at hread
    cases hread
  | ok items =>
    have hpaths : ofPaths paths = do
        let found ← items.mapM fun f => ofPath f.2
        return found.foldl Direct.append {} := by
      unfold ofPaths
      rw [hitems]
      rfl
    rw [hpaths]
    refine (yields_all fun f _ => ofPath_yields f.2).congr ⟨fun h => ⟨⟨items, hitems⟩, ?_⟩, ?_⟩
      (fun v => exists_item_iff hitems fun shared operation => Sent shared operation v)
      fun v => exists_item_iff hitems fun _ operation => Received operation v
    · rintro shared operation ⟨read, listed, of⟩
      rw [hitems] at read
      cases read
      exact h _ listed shared operation of
    · exact fun h f hf shared operation of => h.operations shared operation (.under hitems hf of)

section Direct

variable {paths : Value} {d : Direct} {n : String}

theorem exists_operation_iff (has : Value → Fields → Value → Prop) :
    (∃ v, (∃ shared operation, OperationIn paths shared operation ∧ has shared operation v) ∧
        Refers v n) ↔
      ∃ shared operation v,
        OperationIn paths shared operation ∧ has shared operation v ∧ Refers v n := by
  constructor
  · rintro ⟨v, ⟨shared, operation, hoperation, hv⟩, hn⟩
    exact ⟨shared, operation, v, hoperation, hv, hn⟩
  · rintro ⟨shared, operation, v, hoperation, hv, hn⟩
    exact ⟨v, ⟨shared, operation, hoperation, hv⟩, hn⟩

theorem sends_iff (h : ofPaths paths = .ok d) : n ∈ d.request ↔ Sends paths n :=
  ((ofPaths_yields paths).request d h n).trans (exists_operation_iff Sent)

theorem receives_iff (h : ofPaths paths = .ok d) : n ∈ d.response ↔ Receives paths n :=
  ((ofPaths_yields paths).response d h n).trans (exists_operation_iff fun _ => Received)

end Direct

/-! ## Expansion -/

/-- A schema of a document refers to another one of it. -/
def DependsOn (schemas : Fields) (a b : String) : Prop :=
  Refers (schemas.value a) b ∧ schemas.has b = true

/-- A name that some of the names in a set lead to along dependencies. -/
def Used (schemas : Fields) (start : String → Prop) (n : String) : Prop :=
  ∃ s, start s ∧ ReflTransGen (DependsOn schemas) s n

/-- The named schemas that a named schema refers to, none if they cannot be read. -/
def targets (schemas : Fields) (name : String) : List String :=
  (edges schemas name).toOption.getD []

section Expand

variable {schemas : Fields} {start : List String} {n : String}

theorem edges_ok_iff :
    (∃ found, edges schemas n = .ok found) ↔ ValueTextTargets (schemas.value n) := by
  rw [← names_ok_iff]
  constructor
  · rintro ⟨found, h⟩
    obtain ⟨refs, hrefs, -⟩ := Outcome.bind_eq_ok.mp h
    exact ⟨refs, hrefs⟩
  · rintro ⟨refs, hrefs⟩
    exact ⟨_, Outcome.bind_eq_ok.mpr ⟨refs, hrefs, rfl⟩⟩

theorem mem_targets {a b : String} : b ∈ targets schemas a ↔ DependsOn schemas a b := by
  have hedges : edges schemas a = (names (schemas.value a)).map (·.filter schemas.has) := by
    unfold edges
    cases names (schemas.value a) <;> rfl
  unfold targets DependsOn Refers
  rw [hedges]
  cases names (schemas.value a) <;> simp [Except.map, Except.toOption]

theorem edge_targets : Edge (targets schemas) = DependsOn schemas :=
  funext fun _ => funext fun _ => propext mem_targets

/-- As many texts as there are schemas, the names of all of them among these. -/
def places (schemas : Fields) : List String :=
  schemas.map fun f =>
    match f.1 with
    | .text s => s
    | _ => ""

theorem length_places (schemas : Fields) : (places schemas).length = schemas.length :=
  List.length_map _

theorem targets_subset (n : String) : targets schemas n ⊆ places schemas := by
  intro b hb
  obtain ⟨f, hf, hname⟩ := List.mem_map.mp (Fields.has_iff_mem_names.mp (mem_targets.mp hb).2)
  exact List.mem_map.mpr ⟨f, hf, by rw [hname]⟩

/-- **In whatever order the names are explored, what is found are those that the start leads to.** -/
theorem mem_of_finds {found : List String} (h : Finds (targets schemas) start found) :
    n ∈ found ↔ Used schemas (· ∈ start) n := by
  rw [Exploration.mem_of_finds h, Reaches, edge_targets]
  rfl

theorem finds_reachable (schemas : Fields) (start : List String) :
    Finds (targets schemas) (unseen [] start)
      (reachable (targets schemas) schemas.length start) := by
  rw [← length_places]
  exact Reference.finds_reachable targets_subset start

theorem mem_reachable_targets :
    n ∈ reachable (targets schemas) schemas.length start ↔ Used schemas (· ∈ start) n := by
  rw [← length_places, mem_reachable targets_subset, Reaches, edge_targets]
  rfl

/-- **The expansion succeeds if all schemas that it comes to can be read.** -/
theorem expand_eq_ok {found : List String} : expand schemas start = .ok found ↔
    found = reachable (targets schemas) schemas.length start ∧
      ∀ n, Used schemas (· ∈ start) n → ValueTextTargets (schemas.value n) := by
  have hexpand : expand schemas start =
      ((reachable (targets schemas) schemas.length start).mapM (edges schemas)).map fun _ =>
        reachable (targets schemas) schemas.length start := by
    show (do
      discard ((reachable (targets schemas) schemas.length start).mapM (edges schemas))
      return reachable (targets schemas) schemas.length start) = _
    cases (reachable (targets schemas) schemas.length start).mapM (edges schemas) <;> rfl
  rw [hexpand, Outcome.map_eq_ok]
  constructor
  · rintro ⟨each, heach, rfl⟩
    refine ⟨rfl, fun n hn => ?_⟩
    obtain ⟨e, -, he⟩ := Outcome.exists_right_of_mem (Outcome.forall₂_of_mapM heach)
      (mem_reachable_targets.mpr hn)
    exact edges_ok_iff.mp ⟨e, he⟩
  · rintro ⟨rfl, hall⟩
    obtain ⟨each, heach⟩ := Outcome.exists_mapM_of_forall fun n hn =>
      edges_ok_iff.mpr (hall n (mem_reachable_targets.mp hn))
    exact ⟨each, heach, rfl⟩

end Expand

/-! ## Usages -/

/-- The usage that two sets of names give to a schema with a name, where some schemas are used by
both in any case. -/
def usageOf (circular sent received : List String) (name : Scalar) : Option Usage :=
  if circular.any (fun n => name == .text n) then some .both
  else ofMembership ((sent.map Scalar.text).contains name) ((received.map Scalar.text).contains name)

/-- The usages that they give to the schemas of a document. -/
def assigned (schemas : Fields) (circular sent received : List String) : List (Scalar × Usage) :=
  schemas.filterMap fun f => (usageOf circular sent received f.1).map fun u => (f.1, u)

/-- The usage that a schema has by being sent and by being received. -/
def Fits (sent received : Prop) : Usage → Prop
  | .request => sent ∧ ¬ received
  | .response => ¬ sent ∧ received
  | .both => sent ∧ received

section Assigned

variable {schemas : Fields} {circular sent received : List String} {u : Usage}

theorem ofMembership_eq_some {sent received : Prop} [Decidable sent] [Decidable received] :
    ofMembership (decide sent) (decide received) = some u ↔ u.Fits sent received := by
  by_cases hsent : sent <;> by_cases hreceived : received <;> cases u <;>
    simp [ofMembership, Fits, hsent, hreceived]

/-- Only texts have a usage. -/
theorem usageOf_eq_some {name : Scalar} : usageOf circular sent received name = some u ↔
    ∃ n, name = .text n ∧ if n ∈ circular then u = .both else u.Fits (n ∈ sent) (n ∈ received) := by
  by_cases htext : ∃ n, name = .text n
  · obtain ⟨n, rfl⟩ := htext
    have hcircular : (circular.any fun m => Scalar.text n == .text m) = decide (n ∈ circular) := by
      rw [Bool.eq_iff_iff]
      simp
    have hcontains : ∀ l : List String, (l.map Scalar.text).contains (.text n) = decide (n ∈ l) := by
      intro l
      rw [Bool.eq_iff_iff]
      simp
    unfold usageOf
    rw [hcircular, hcontains, hcontains]
    by_cases hn : n ∈ circular
    · simp [hn, eq_comm]
    · simp [hn, ofMembership_eq_some]
  · have hcontains : ∀ l : List String, (l.map Scalar.text).contains name = false := by
      intro l
      simp only [List.contains_eq_mem, decide_eq_false_iff_not, List.mem_map]
      rintro ⟨n, -, hn⟩
      exact htext ⟨n, hn.symm⟩
    have hcircular : (circular.any fun n => name == .text n) = false := by
      rw [List.any_eq_false]
      exact fun n _ hn => htext ⟨n, eq_of_beq hn⟩
    unfold usageOf
    rw [hcircular, hcontains, hcontains]
    simp only [Bool.false_eq_true, if_false, ofMembership, reduceCtorEq, false_iff]
    rintro ⟨n, hn, -⟩
    exact htext ⟨n, hn⟩

/-- **Which usages are given.** -/
theorem mem_assigned {name : Scalar} : (name, u) ∈ assigned schemas circular sent received ↔
    ∃ n, name = .text n ∧ schemas.has n = true ∧
      if n ∈ circular then u = .both else u.Fits (n ∈ sent) (n ∈ received) := by
  have hmem : (name, u) ∈ assigned schemas circular sent received ↔
      name ∈ schemas.names ∧ usageOf circular sent received name = some u := by
    rw [assigned, List.mem_filterMap]
    constructor
    · rintro ⟨f, hf, h⟩
      obtain ⟨u', hu', h⟩ := Option.map_eq_some_iff.mp h
      cases h
      exact ⟨List.mem_map_of_mem hf, hu'⟩
    · rintro ⟨hname, hu⟩
      obtain ⟨f, hf, rfl⟩ := List.mem_map.mp hname
      exact ⟨f, hf, by rw [hu]; rfl⟩
  rw [hmem, usageOf_eq_some]
  constructor
  · rintro ⟨hname, n, rfl, h⟩
    exact ⟨n, rfl, Fields.has_iff_mem_names.mpr hname, h⟩
  · rintro ⟨n, rfl, hhas, h⟩
    exact ⟨Fields.has_iff_mem_names.mp hhas, n, rfl, h⟩

/-- Only what is in the sets matters. -/
theorem assigned_congr {sent' received' : List String} (hsent : ∀ n, n ∈ sent ↔ n ∈ sent')
    (hreceived : ∀ n, n ∈ received ↔ n ∈ received') :
    assigned schemas circular sent received = assigned schemas circular sent' received' := by
  have husage : ∀ name, usageOf circular sent received name =
      usageOf circular sent' received' name := by
    intro name
    refine Option.ext fun u => ?_
    rw [usageOf_eq_some, usageOf_eq_some]
    simp only [hsent, hreceived]
  unfold assigned
  simp only [husage]

end Assigned

theorem analyze_eq {spec schemas : Fields} {direct : Direct}
    (hschemas : schemasOf spec = .ok schemas) (hdirect : ofPaths (spec.value "paths") = .ok direct)
    (hsome : ∃ n, n ∈ direct.request ∨ n ∈ direct.response) (circular : List String) :
    analyze spec circular = do
      let sent ← expand schemas direct.request
      let received ← expand schemas direct.response
      return assigned schemas circular sent received := by
  have hnone : (direct.request.isEmpty && direct.response.isEmpty) = false := by
    obtain ⟨n, hn | hn⟩ := hsome
    · simp [List.ne_nil_of_mem hn]
    · simp [List.ne_nil_of_mem hn]
  rw [analyze, hschemas, Outcome.ok_bind, hdirect, Outcome.ok_bind, hnone]
  cases expand schemas direct.request with
  | error f => rfl
  | ok sent => cases expand schemas direct.response <;> rfl

/-! ## Circular schemas -/

section Circular

variable {schemas : Fields}

theorem edge_adjacency {a : Adjacency} (h : schemas.names.Nodup)
    (hadj : Graph.adjacency schemas = .ok a) : Edge a.of = DependsOn schemas := by
  funext m n
  refine propext ?_
  show n ∈ a.of m ↔ _
  by_cases hm : schemas.has m = true
  · obtain ⟨found, hfound, hof⟩ := Graph.of_adjacency h hadj (mem_textNames.mpr hm)
    rw [hof, List.mem_filter]
    constructor
    · exact fun ⟨hn, hhas⟩ => ⟨⟨found, hfound, hn⟩, hhas⟩
    · rintro ⟨⟨found', hfound', hn⟩, hhas⟩
      rw [hfound] at hfound'
      cases hfound'
      exact ⟨hn, hhas⟩
  · have hnone : ¬ n ∈ a.of m := fun hn => by
      refine hm (mem_textNames.mp ?_)
      rw [← Graph.names_adjacency h hadj]
      exact Adjacency.mem_names_of_edge hn
    refine ⟨fun hn => absurd hn hnone, ?_⟩
    rintro ⟨⟨found, hfound, hn⟩, -⟩
    rw [Fields.value_eq_null hm] at hfound
    cases hfound
    cases hn

/-- **The circular schemas of a document's graph are those that depend on themselves.** -/
theorem mem_circular {g : Graph} (h : schemas.names.Nodup) (hg : Graph.ofSchemas schemas = .ok g)
    {n : String} : n ∈ g.circular ↔ TransGen (DependsOn schemas) n n := by
  obtain ⟨a, hadj, rfl⟩ := Outcome.map_eq_ok.mp hg
  rw [Graph.mem_circular h hadj, ReachesProperly, edge_adjacency h hadj]

/-- Where there is a graph, all schemas can be read. -/
theorem valueTextTargets_value {g : Graph} (hg : Graph.ofSchemas schemas = .ok g) (n : String) :
    ValueTextTargets (schemas.value n) := by
  by_cases hn : schemas.has n = true
  · exact Graph.ofSchemas_ok_iff.mp ⟨g, hg⟩ _ (Fields.mem_of_get? (Fields.get?_of_has hn))
  · rw [Fields.value_eq_null hn]
    trivial

end Circular

/-! ## The analysis -/

/-- A schema of a document that its requests use. -/
def UsedByRequests (spec schemas : Fields) : String → Prop :=
  Used schemas (Sends (spec.value "paths"))

/-- A schema of a document that its responses use. -/
def UsedByResponses (spec schemas : Fields) : String → Prop :=
  Used schemas (Receives (spec.value "paths"))

/-- A document with these schemas, from which its operations and all schemas that they use can be
read. -/
structure Readable (spec schemas : Fields) : Prop where
  named : schemasOf spec = .ok schemas
  paths : ReadablePaths (spec.value "paths")
  used : ∀ n, UsedByRequests spec schemas n ∨ UsedByResponses spec schemas n →
    ValueTextTargets (schemas.value n)

/-- Usages that are exactly those of the schemas of a document. The circular ones are used by both,
and any other by those that it can be reached from. -/
def Exact (spec schemas : Fields) (circular : String → Prop) (usages : List (Scalar × Usage)) :
    Prop :=
  ∀ name u, (name, u) ∈ usages ↔ ∃ n, name = .text n ∧ schemas.has n = true ∧
    (circular n ∧ u = .both ∨
      ¬ circular n ∧ u.Fits (UsedByRequests spec schemas n) (UsedByResponses spec schemas n))

section Analysis

variable {spec schemas : Fields} {circular : List String}

theorem requests_eq {start : List String} (h : ∀ n, n ∈ start ↔ Sends (spec.value "paths") n) :
    Used schemas (· ∈ start) = UsedByRequests spec schemas := by
  have hsends : (· ∈ start) = Sends (spec.value "paths") := funext fun n => propext (h n)
  rw [hsends]
  rfl

theorem responses_eq {start : List String} (h : ∀ n, n ∈ start ↔ Receives (spec.value "paths") n) :
    Used schemas (· ∈ start) = UsedByResponses spec schemas := by
  have hreceives : (· ∈ start) = Receives (spec.value "paths") := funext fun n => propext (h n)
  rw [hreceives]
  rfl

theorem exact_assigned {sent received : List String} {circularly : String → Prop}
    (hcircular : ∀ n, n ∈ circular ↔ circularly n)
    (hsent : ∀ n, n ∈ sent ↔ UsedByRequests spec schemas n)
    (hreceived : ∀ n, n ∈ received ↔ UsedByResponses spec schemas n) :
    Exact spec schemas circularly (assigned schemas circular sent received) := by
  intro name u
  rw [mem_assigned]
  refine exists_congr fun n => and_congr Iff.rfl (and_congr Iff.rfl ?_)
  by_cases hn : n ∈ circular
  · simp [hn, ← hcircular]
  · simp [hn, ← hcircular, hsent, hreceived]

variable (hsome : ∃ n, Sends (spec.value "paths") n ∨ Receives (spec.value "paths") n)
include hsome

/-- **The analysis fails if something that it comes to cannot be read.** -/
theorem readable_of_analyze {usages : List (Scalar × Usage)}
    (h : analyze spec circular = .ok usages) : ∃ schemas, Readable spec schemas := by
  obtain ⟨schemas, hschemas, hrest⟩ := Outcome.bind_eq_ok.mp h
  obtain ⟨direct, hdirect, -⟩ := Outcome.bind_eq_ok.mp hrest
  refine ⟨schemas, hschemas, (ofPaths_yields _).ok_iff.mp ⟨direct, hdirect⟩, fun n hn => ?_⟩
  rw [analyze_eq hschemas hdirect (by simpa only [sends_iff hdirect, receives_iff hdirect])
    circular] at h
  obtain ⟨sent, hsent, h⟩ := Outcome.bind_eq_ok.mp h
  obtain ⟨received, hreceived, h⟩ := Outcome.bind_eq_ok.mp h
  rw [← requests_eq fun _ => sends_iff hdirect, ← responses_eq fun _ => receives_iff hdirect] at hn
  exact hn.elim ((expand_eq_ok.mp hsent).2 n) ((expand_eq_ok.mp hreceived).2 n)

/-- **The analysis gives what any explorations from the names of the operations find.** -/
theorem analyze_of_finds (h : Readable spec schemas) (circular : List String)
    {start start' sent received : List String}
    (hstart : ∀ n, n ∈ start ↔ Sends (spec.value "paths") n)
    (hstart' : ∀ n, n ∈ start' ↔ Receives (spec.value "paths") n)
    (hsent : Finds (targets schemas) start sent)
    (hreceived : Finds (targets schemas) start' received) :
    analyze spec circular = .ok (assigned schemas circular sent received) := by
  obtain ⟨direct, hdirect⟩ := (ofPaths_yields _).ok_iff.mpr h.paths
  have hrequests : Used schemas (· ∈ direct.request) = UsedByRequests spec schemas :=
    requests_eq fun _ => sends_iff hdirect
  have hresponses : Used schemas (· ∈ direct.response) = UsedByResponses spec schemas :=
    responses_eq fun _ => receives_iff hdirect
  have hexpand : expand schemas direct.request =
      .ok (reachable (targets schemas) schemas.length direct.request) :=
    expand_eq_ok.mpr ⟨rfl, fun n hn => h.used n (Or.inl (by rwa [← hrequests]))⟩
  have hexpand' : expand schemas direct.response =
      .ok (reachable (targets schemas) schemas.length direct.response) :=
    expand_eq_ok.mpr ⟨rfl, fun n hn => h.used n (Or.inr (by rwa [← hresponses]))⟩
  rw [analyze_eq h.named hdirect (by simpa only [sends_iff hdirect, receives_iff hdirect]) circular,
    hexpand, hexpand']
  refine congrArg Except.ok (assigned_congr (fun n => ?_) fun n => ?_)
  · rw [mem_reachable_targets, mem_of_finds hsent, hrequests, requests_eq hstart]
  · rw [mem_reachable_targets, mem_of_finds hreceived, hresponses, responses_eq hstart']

omit hsome in
/-- Such explorations there are. -/
theorem exists_finds (h : Readable spec schemas) : ∃ start start' sent received,
    (∀ n, n ∈ start ↔ Sends (spec.value "paths") n) ∧
    (∀ n, n ∈ start' ↔ Receives (spec.value "paths") n) ∧
    Finds (targets schemas) start sent ∧ Finds (targets schemas) start' received := by
  obtain ⟨direct, hdirect⟩ := (ofPaths_yields _).ok_iff.mpr h.paths
  refine ⟨_, _, _, _, fun n => ?_, fun n => ?_, finds_reachable schemas direct.request,
    finds_reachable schemas direct.response⟩
  · rw [← sends_iff hdirect, mem_unseen]
    simp
  · rw [← receives_iff hdirect, mem_unseen]
    simp

/--
**Usage is exact reachability.** Let the operations of a document refer to some schema. If the
operations and all schemas that they use can be read, the analysis gives exactly the usages of the
schemas that can be reached from what the operations refer to. With the graph of the document nothing
changes but that the circular schemas are used by both. The names may be explored in any order: each
exploration ends, and what it finds gives the same usages. If something cannot be read, the analysis
fails.
-/
theorem usage_exact :
    (∀ schemas, Readable spec schemas →
      (∃ usages, analyze spec [] = .ok usages ∧ Exact spec schemas (fun _ => False) usages) ∧
      (∀ g, schemas.names.Nodup → Graph.ofSchemas schemas = .ok g →
        ∃ usages, analyze spec g.circular = .ok usages ∧
          Exact spec schemas (fun n => TransGen (DependsOn schemas) n n) usages) ∧
      WellFounded (fun e' e => Explores (targets schemas) e e') ∧
      ∀ (circular start start' sent received : List String),
        (∀ n, n ∈ start ↔ Sends (spec.value "paths") n) →
        (∀ n, n ∈ start' ↔ Receives (spec.value "paths") n) →
        Finds (targets schemas) start sent → Finds (targets schemas) start' received →
        analyze spec circular = .ok (assigned schemas circular sent received)) ∧
    ((¬ ∃ schemas, Readable spec schemas) →
      ∀ circular usages, analyze spec circular ≠ .ok usages) := by
  refine ⟨fun schemas h => ?_, fun h circular usages hok => h (readable_of_analyze hsome hok)⟩
  have hexact : ∀ (circular : List String) (circularly : String → Prop),
      (∀ n, n ∈ circular ↔ circularly n) →
      ∃ usages, analyze spec circular = .ok usages ∧ Exact spec schemas circularly usages := by
    intro circular circularly hcircular
    obtain ⟨start, start', sent, received, hstart, hstart', hsent, hreceived⟩ := exists_finds h
    refine ⟨_, analyze_of_finds hsome h circular hstart hstart' hsent hreceived, ?_⟩
    refine exact_assigned hcircular (fun n => ?_) fun n => ?_
    · rw [mem_of_finds hsent, requests_eq hstart]
    · rw [mem_of_finds hreceived, responses_eq hstart']
  refine ⟨hexact [] _ (fun n => by simp), fun g hnodup hg => ?_, ?_, ?_⟩
  · exact hexact g.circular _ fun n => mem_circular hnodup hg
  · exact Exploration.wellFounded_explores targets_subset
  · intro circular start start' sent received hstart hstart' hsent hreceived
    exact analyze_of_finds hsome h circular hstart hstart' hsent hreceived

end Analysis

/-- A reference as a schema. -/
def referTo (name : String) : Value :=
  .object [(.text "$ref", .text ("#/components/schemas/" ++ name))]

/-- What offers a schema as JSON. -/
def offering (schema : Value) : Value :=
  .object [(.text "content", .object
    [(.text "application/json", .object [(.text "schema", schema)])])]

/-- A document with one operation, and some schemas. -/
def document (sent received : Value) (schemas : Fields) : Fields :=
  [(.text "paths", .object [(.text "/pets", .object [(.text "post", .object [
      (.text "requestBody", offering sent),
      (.text "responses", .object [(.text "200", offering received)])])])]),
   (.text "components", .object [(.text "schemas", .object schemas)])]

/-- Pets with owners, and nodes that nobody refers to but nodes. -/
def petSchemas : Fields :=
  [(.text "Pet", .object [(.text "properties", .object [(.text "owner", referTo "Person")])]),
   (.text "Person", .object [(.text "type", .text "object")]),
   (.text "Node", .object [(.text "properties", .object [(.text "next", referTo "Node")])])]

/-- An operation that takes pets and answers with people. -/
def petDocument : Fields := document (referTo "Pet") (referTo "Person") petSchemas

/-- The owner of a pet that is sent is sent as well, and received of itself; only the graph shows
the nodes. -/
theorem usage_exact_pets :
    ∃ g usages usages', Graph.ofSchemas petSchemas = .ok g ∧
      analyze petDocument [] = .ok usages ∧
      usages = [(.text "Pet", .request), (.text "Person", .both)] ∧
      Exact petDocument petSchemas (fun _ => False) usages ∧
      analyze petDocument g.circular = .ok usages' ∧
      usages' = [(.text "Pet", .request), (.text "Person", .both), (.text "Node", .both)] ∧
      Exact petDocument petSchemas (fun n => TransGen (DependsOn petSchemas) n n) usages' := by
  obtain ⟨g, d, hg, hd, hn, hread, husages, husages'⟩ : ∃ g d,
      Graph.ofSchemas petSchemas = .ok g ∧
      ofPaths (petDocument.value "paths") = .ok d ∧ "Pet" ∈ d.request ∧
      schemasOf petDocument = .ok petSchemas ∧
      analyze petDocument [] = .ok [(.text "Pet", .request), (.text "Person", .both)] ∧
      analyze petDocument g.circular =
        .ok [(.text "Pet", .request), (.text "Person", .both), (.text "Node", .both)] :=
    ⟨_, _, rfl, rfl, by decide, rfl, rfl, rfl⟩
  have hsome : ∃ n, Sends (petDocument.value "paths") n ∨ Receives (petDocument.value "paths") n :=
    ⟨"Pet", Or.inl ((sends_iff hd).mp hn)⟩
  have hreadable : Readable petDocument petSchemas :=
    ⟨hread, (ofPaths_yields _).ok_iff.mp ⟨d, hd⟩, fun n _ => valueTextTargets_value hg n⟩
  obtain ⟨⟨usages, hok, hexact⟩, hgraph, -⟩ := (usage_exact hsome).1 petSchemas hreadable
  obtain ⟨usages', hok', hexact'⟩ := hgraph g (by decide) hg
  refine ⟨g, usages, usages', hg, hok, ?_, hexact, hok', ?_, hexact'⟩
  · exact Except.ok.inj (hok.symm.trans husages)
  · exact Except.ok.inj (hok'.symm.trans husages')

/-- An operation that takes a schema with a number as the target of a mapping. -/
def numberDocument : Fields := document (referTo "A") (.object []) Graph.numberTarget

/-- **A mapping with a target that is a number ends the analysis**, though it refers to nothing. -/
theorem not_usage_exact_numberTarget :
    Sends (numberDocument.value "paths") "A" ∧
      UsedByRequests numberDocument Graph.numberTarget "A" ∧
      ¬ UsedByResponses numberDocument Graph.numberTarget "A" ∧
      ¬ ∃ usages, analyze numberDocument [] = .ok usages := by
  obtain ⟨d, hd, hrequest, hresponse, hfails⟩ : ∃ d,
      ofPaths (numberDocument.value "paths") = .ok d ∧ d.request = ["A"] ∧ d.response = [] ∧
      analyze numberDocument [] = .error .noMember :=
    ⟨_, rfl, rfl, rfl, rfl⟩
  have hsends : Sends (numberDocument.value "paths") "A" := (sends_iff hd).mp (by simp [hrequest])
  refine ⟨hsends, ⟨"A", hsends, .refl⟩, ?_, ?_⟩
  · rintro ⟨s, hs, -⟩
    have hmem := (receives_iff hd).mpr hs
    rw [hresponse] at hmem
    cases hmem
  · rintro ⟨usages, hok⟩
    rw [hfails] at hok
    cases hok

end SchemaForge.Usage
