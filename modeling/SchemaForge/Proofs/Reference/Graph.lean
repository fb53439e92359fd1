import SchemaForge.Proofs.Reference.Components
import SchemaForge.Proofs.Reference.Scope
import SchemaForge.Reference.Graph

/-!
# The reference graph

What the reference graph of named schemas says of them: which schemas refer to which, which of them
reach each other, in which order they can be written, and which of them are circular. The graph
exists unless a discriminator mapping somewhere in the schemas has a target that is no text.
-/

namespace SchemaForge.Reference

open Relation

/-- Schemas named by texts, where no name occurs twice. -/
structure Named (schemas : Fields) (names : List String) : Prop where
  texts : schemas.names = names.map Scalar.text
  distinct : names.Nodup

/-- The names of schemas, as far as they are texts. -/
def textNames (schemas : Fields) : List String :=
  schemas.names.filterMap fun name =>
    match name with
    | .text n => some n
    | _ => none

section Distinct

variable {schemas : Fields} {names : List String} {n : String}

theorem mem_textNames : n ∈ textNames schemas ↔ schemas.has n = true := by
  rw [Fields.has_iff_mem_names, textNames, List.mem_filterMap]
  constructor
  · rintro ⟨name, hname, hn⟩
    cases name with
    | text m =>
      cases hn
      exact hname
    | _ => cases hn
  · exact fun hn => ⟨.text n, hn, rfl⟩

theorem textNames_eq (htexts : schemas.names = names.map Scalar.text) : textNames schemas = names := by
  rw [textNames, htexts, List.filterMap_map]
  exact List.filterMap_some

variable (h : schemas.names.Nodup)
include h

theorem nodup_textNames : (textNames schemas).Nodup := by
  refine h.filterMap fun name name' n hn hn' => ?_
  cases name <;> cases name' <;> simp_all

/-- Among schemas of different names, each is found under its name. -/
theorem value_of_mem {f : Scalar × Value} (hf : f ∈ schemas) (hn : f.1 = .text n) :
    schemas.value n = f.2 := by
  have hhas : schemas.has n = true := by
    rw [Fields.has_iff_mem_names, ← hn]
    exact List.mem_map_of_mem hf
  have hmem := Fields.mem_of_get? (Fields.get?_of_has hhas)
  have heq := List.inj_on_of_nodup_map h hmem hf hn.symm
  rw [← heq]

end Distinct

namespace Named

variable {schemas : Fields} {names : List String} (h : Named schemas names)
include h

theorem nodup : schemas.names.Nodup := by
  rw [h.texts]
  exact h.distinct.map fun a b hab => by simpa using hab

theorem has_iff {n : String} : schemas.has n = true ↔ n ∈ names := by
  rw [← mem_textNames, textNames_eq h.texts]

end Named

namespace Graph

/-- A schema refers to another one. -/
def Edge (g : Graph) : String → String → Prop := Reference.Edge g.dependencies.of

/-- A schema reaches another one by zero or more edges. -/
def Reaches (g : Graph) : String → String → Prop := ReflTransGen g.Edge

/-- A schema reaches another one by one or more edges. -/
def ReachesProperly (g : Graph) : String → String → Prop := TransGen g.Edge

/-- What the reference graph of named schemas says of them. -/
structure Describes (g : Graph) (schemas : Fields) (names : List String) : Prop where
  /-- The edges lead to the named schemas among those that a schema refers to. -/
  edges : g.dependencies.map (·.1) = names ∧ ∀ n ∈ names, ∃ found,
    Reference.names (schemas.value n) = .ok found ∧ g.dependencies.of n = found.filter schemas.has
  /-- Every name stands in exactly one component, once. -/
  order_perm : g.order.Perm names
  component_ne_nil : ∀ c ∈ g.components, c ≠ []
  /-- Two names share a component if they reach each other. -/
  component_iff : ∀ a ∈ names, ∀ b ∈ names,
    (∃ c ∈ g.components, a ∈ c ∧ b ∈ c) ↔ g.Reaches a b ∧ g.Reaches b a
  /-- A component stands after those it refers to. -/
  dependencies_first : ∀ (i j : Nat) (c d : List String) (a b : String),
    g.components[i]? = some c → g.components[j]? = some d → a ∈ c → b ∈ d → g.Edge a b →
    i ≠ j → j < i
  /-- The members of a component stand in document order. -/
  document_order : ∀ c ∈ g.components, c.Sublist names
  circular_iff : ∀ n, n ∈ g.circular ↔ g.ReachesProperly n n
  inSameCycle_iff : ∀ a b,
    g.inSameCycle a b = true ↔ g.ReachesProperly a b ∧ g.ReachesProperly b a

/-! ## Graphs of adjacencies -/

section OfAdjacency

variable {a : Adjacency} (ha : a.Closed)
include ha

theorem grouped : Grouped a.of a.names (ofAdjacency a).components := components_grouped ha

/-- Two names share a component if they reach each other. -/
theorem mem_component_iff {m n : String} (hm : m ∈ a.names) (hn : n ∈ a.names) :
    (∃ c ∈ (ofAdjacency a).components, m ∈ c ∧ n ∈ c) ↔ Mutual a.of m n := by
  constructor
  · rintro ⟨c, hc, hmc, hnc⟩
    obtain ⟨-, r, -, hmem⟩ := (grouped ha).component c hc
    exact ((hmem m).mp hmc).2.symm.trans ((hmem n).mp hnc).2
  · intro hmn
    obtain ⟨c, hc, hmc⟩ := List.mem_flatten.mp ((mem_components ha).mpr hm)
    obtain ⟨-, r, -, hmem⟩ := (grouped ha).component c hc
    exact ⟨c, hc, hmc, (hmem n).mpr ⟨hn, ((hmem m).mp hmc).2.trans hmn⟩⟩

theorem mem_order {n : String} : n ∈ (ofAdjacency a).order ↔ n ∈ a.names := mem_components ha

/-- **Components come behind those that they depend on.** -/
theorem lt_of_edge {i j : Nat} {c d : List String} {m n : String}
    (hi : (ofAdjacency a).components[i]? = some c) (hj : (ofAdjacency a).components[j]? = some d)
    (hm : m ∈ c) (hn : n ∈ d) (hmn : n ∈ a.of m) (hij : i ≠ j) : j < i := by
  by_contra hji
  have hlt : i < j := by omega
  obtain ⟨hi', rfl⟩ := List.getElem?_eq_some_iff.mp hi
  obtain ⟨hj', rfl⟩ := List.getElem?_eq_some_iff.mp hj
  have hord := List.pairwise_iff_getElem.mp (grouped ha).ordered i j hi' hj' hlt
  exact hord m hm n hn (.single hmn)

variable (hnodup : a.names.Nodup)
include hnodup

theorem nodup_order : (ofAdjacency a).order.Nodup := by
  refine List.nodup_flatten.mpr ⟨fun c hc => ?_, (grouped ha).ordered.imp fun hcd => ?_⟩
  · exact hnodup.sublist ((grouped ha).component c hc).1
  · exact fun x hx hx' => hcd x hx x hx' .refl

/-- **The members of a component reach themselves exactly if the component is a cycle.** -/
theorem isCycle_iff {c : List String} (hc : c ∈ (ofAdjacency a).components) {n : String}
    (hn : n ∈ c) : isCycle a c = true ↔ Reference.ReachesProperly a.of n n := by
  obtain ⟨hsub, r, -, hmem⟩ := (grouped ha).component c hc
  match c, hn with
  | [m], hn =>
    obtain rfl := List.mem_singleton.mp hn
    rw [isCycle, List.contains_iff_mem, reachesProperly_iff_exists]
    refine ⟨fun h => ⟨n, h, .refl⟩, ?_⟩
    rintro ⟨k, hk, hkn⟩
    -- what a member refers to and is referred to from is a member, so it is the only one
    have hkc : k ∈ [n] :=
      (hmem k).mpr ⟨ha n hk, ((hmem n).mp hn).2.trans ⟨.single hk, hkn⟩⟩
    rwa [List.mem_singleton.mp hkc] at hk
  | l :: m :: rest, hn =>
    have hne : l ≠ m := by
      have hl := (List.nodup_cons.mp (hnodup.sublist hsub)).1
      exact fun heq => hl (heq ▸ List.mem_cons_self)
    obtain ⟨k, hk, hkn⟩ : ∃ k ∈ l :: m :: rest, k ≠ n := by
      by_cases hl : l = n
      · exact ⟨m, by simp, fun hm => hne (hl.trans hm.symm)⟩
      · exact ⟨l, by simp, hl⟩
    obtain ⟨hnk, hkn'⟩ := ((hmem n).mp hn).2.symm.trans ((hmem k).mp hk).2
    refine ⟨fun _ => ?_, fun _ => rfl⟩
    exact TransGen.trans_left ((reaches_iff.mp hnk).resolve_left (Ne.symm hkn)) hkn'

/-- A name is circular if it reaches itself by at least one step, loops included. -/
theorem circular_iff {n : String} :
    n ∈ (ofAdjacency a).circular ↔ Reference.ReachesProperly a.of n n := by
  have hmem : n ∈ (ofAdjacency a).circular ↔
      ∃ c ∈ (ofAdjacency a).components, isCycle a c = true ∧ n ∈ c := by
    simp [ofAdjacency, and_assoc]
  rw [hmem]
  constructor
  · rintro ⟨c, hc, hcycle, hn⟩
    exact (isCycle_iff ha hnodup hc hn).mp hcycle
  · intro h
    obtain ⟨s, hs, -⟩ := reachesProperly_iff_exists.mp h
    obtain ⟨c, hc, hn⟩ := List.mem_flatten.mp
      ((mem_components ha).mpr (Adjacency.mem_names_of_edge hs))
    exact ⟨c, hc, (isCycle_iff ha hnodup hc hn).mpr h, hn⟩

/-- Two names lie on a cycle if each reaches the other by at least one step. -/
theorem inSameCycle_iff {m n : String} : (ofAdjacency a).inSameCycle m n = true ↔
    Reference.ReachesProperly a.of m n ∧ Reference.ReachesProperly a.of n m := by
  have hsplit : (ofAdjacency a).inSameCycle m n = true ↔
      (m ∈ (ofAdjacency a).circular ∧ n ∈ (ofAdjacency a).circular) ∧
        ∃ c ∈ (ofAdjacency a).components, m ∈ c ∧ n ∈ c := by
    simp [inSameCycle, isCircular]
  rw [hsplit, circular_iff ha hnodup, circular_iff ha hnodup]
  have hnames : ∀ {x : String}, Reference.ReachesProperly a.of x x → x ∈ a.names := by
    intro x hx
    obtain ⟨s, hs, -⟩ := reachesProperly_iff_exists.mp hx
    exact Adjacency.mem_names_of_edge hs
  constructor
  · rintro ⟨⟨hm, hn⟩, hc⟩
    obtain ⟨hmn, hnm⟩ := (mem_component_iff ha (hnames hm) (hnames hn)).mp hc
    -- a way of no edges ends where it starts, and from there a cycle goes on
    exact ⟨TransGen.trans_left hm hmn, TransGen.trans_left hn hnm⟩
  · rintro ⟨hmn, hnm⟩
    have hm := hmn.trans hnm
    have hn := hnm.trans hmn
    exact ⟨⟨hm, hn⟩, (mem_component_iff ha (hnames hm) (hnames hn)).mpr
      ⟨hmn.to_reflTransGen, hnm.to_reflTransGen⟩⟩

end OfAdjacency

/-! ## Adjacencies of schemas -/

/-- The name of a schema with the named schemas that it refers to. -/
def entry (schemas : Fields) (f : Scalar × Value) : Except Fault (Scalar × List String) := do
  let names ← Reference.names f.2
  return (f.1, names.filter schemas.has)

theorem adjacency_eq (schemas : Fields) : adjacency schemas = do
    let found ← schemas.mapM (entry schemas)
    return found.filterMap fun (name, targets) =>
      match name with
      | .text n => some (n, targets)
      | _ => none := rfl

/-- An entry of the adjacency of named schemas. -/
def EntryOf (schemas : Fields) (n : String) (e : String × List String) : Prop :=
  e.1 = n ∧ ∃ found, Reference.names (schemas.value n) = .ok found ∧
    e.2 = found.filter schemas.has

variable {schemas : Fields} {names : List String} {a : Adjacency}

/-- The entries are made one by one, but each of them looks at all schemas. -/
theorem forall₂_entries {part : Fields} {found : List (Scalar × List String)}
    (hfound : List.Forall₂ (fun f e => entry schemas f = .ok e) part found)
    (hvalue : ∀ f ∈ part, ∀ n, f.1 = .text n → schemas.value n = f.2) :
    List.Forall₂ (EntryOf schemas) (textNames part) (found.filterMap fun (name, targets) =>
      match name with
      | .text n => some (n, targets)
      | _ => none) := by
  induction hfound with
  | nil => exact .nil
  | @cons f e part found he _ ih =>
    obtain ⟨name, v⟩ := f
    obtain ⟨refs, hrefs, he⟩ := Outcome.bind_eq_ok.mp he
    cases he
    have hrest := ih fun g hg => hvalue g (List.mem_cons_of_mem _ hg)
    cases name with
    | text n =>
      have hv := hvalue (.text n, v) List.mem_cons_self n rfl
      exact .cons ⟨rfl, refs, by rw [hv]; exact hrefs, rfl⟩ hrest
    | _ => exact hrest

section Adjacency

variable (h : schemas.names.Nodup) (hadj : adjacency schemas = .ok a)
include h hadj

/-- The graph has an entry for each name that is a text, in the order of the document. -/
theorem forall₂_adjacency : List.Forall₂ (EntryOf schemas) (textNames schemas) a := by
  obtain ⟨found, hfound, hadj⟩ := Outcome.bind_eq_ok.mp hadj
  cases hadj
  exact forall₂_entries (Outcome.forall₂_of_mapM hfound) fun f hf n hn => value_of_mem h hf hn

theorem names_adjacency : a.names = textNames schemas := by
  have hall := forall₂_adjacency h hadj
  clear hadj
  generalize textNames schemas = names at hall
  induction hall with
  | nil => rfl
  | cons he _ ih => exact congrArg₂ List.cons he.1 ih

/-- **The edges of a name are the definitions that its schema names.** -/
theorem of_adjacency {n : String} (hn : n ∈ textNames schemas) :
    ∃ found, Reference.names (schemas.value n) = .ok found ∧
      a.of n = found.filter schemas.has := by
  have hall := forall₂_adjacency h hadj
  have hn' : n ∈ a.names := by rwa [names_adjacency h hadj]
  cases hl : a.lookup n with
  | none =>
    obtain ⟨e, he, rfl⟩ := List.mem_map.mp hn'
    exact absurd (List.lookup_eq_none_iff.mp hl e he) (by simp)
  | some targets =>
    obtain ⟨l₁, l₂, rfl, -⟩ := List.lookup_eq_some_iff.mp hl
    obtain ⟨n', hn', he, found, hfound, htargets⟩ :=
      Outcome.exists_left_of_mem hall (show (n, targets) ∈ l₁ ++ (n, targets) :: l₂ by simp)
    cases he
    exact ⟨found, hfound, by rw [Adjacency.of, hl]; exact htargets⟩

/-- No edge leaves the document. -/
theorem closed_adjacency : a.Closed := by
  intro n m hm
  have hnames := names_adjacency h hadj
  have hn : n ∈ textNames schemas := hnames ▸ Adjacency.mem_names_of_edge hm
  obtain ⟨found, -, hof⟩ := of_adjacency h hadj hn
  rw [hof] at hm
  rw [hnames, mem_textNames]
  exact (List.mem_filter.mp hm).2

/-- **The circular schemas are those that reach themselves**, whatever names other schemas have. -/
theorem mem_circular {n : String} :
    n ∈ (ofAdjacency a).circular ↔ Reference.ReachesProperly a.of n n :=
  circular_iff (closed_adjacency h hadj) (names_adjacency h hadj ▸ nodup_textNames h)

end Adjacency

/-! ## Graphs of schemas -/

/-- **The graph of named schemas describes them.** -/
theorem describes_of_ok {g : Graph} (h : Named schemas names) (hg : ofSchemas schemas = .ok g) :
    g.Describes schemas names := by
  obtain ⟨a, hadj, rfl⟩ := Outcome.map_eq_ok.mp hg
  have ha := closed_adjacency h.nodup hadj
  have htexts := textNames_eq h.texts
  have hnames : a.names = names := (names_adjacency h.nodup hadj).trans htexts
  have hnodup : a.names.Nodup := hnames ▸ h.distinct
  have hgrouped := grouped ha
  refine ⟨⟨hnames, fun n hn => of_adjacency h.nodup hadj (htexts ▸ hn)⟩, ?_, ?_, ?_, ?_, ?_, ?_, ?_⟩
  · refine (List.perm_ext_iff_of_nodup (nodup_order ha hnodup) h.distinct).mpr ?_
    intro n
    rw [mem_order ha, hnames]
  · intro c hc hnil
    obtain ⟨-, r, hr, hmem⟩ := hgrouped.component c hc
    have hrc := (hmem r).mpr ⟨hr, Mutual.refl r⟩
    rw [hnil] at hrc
    exact absurd hrc List.not_mem_nil
  · intro m hm n hn
    exact mem_component_iff ha (hnames ▸ hm) (hnames ▸ hn)
  · intro i j c d m n hi hj hm hn hmn hij
    exact lt_of_edge ha hi hj hm hn hmn hij
  · intro c hc
    exact hnames ▸ (hgrouped.component c hc).1
  · intro n
    exact circular_iff ha hnodup
  · intro m n
    exact inSameCycle_iff ha hnodup

theorem Describes.of_edge {g : Graph} {m n : String} (h : g.Describes schemas names)
    (hmn : g.Edge m n) : m ∈ names ∧ schemas.has n = true := by
  have hm : m ∈ names := h.edges.1 ▸ Adjacency.mem_names_of_edge hmn
  obtain ⟨found, -, hof⟩ := h.edges.2 m hm
  have hmem : n ∈ g.dependencies.of m := hmn
  rw [hof] at hmem
  exact ⟨hm, (List.mem_filter.mp hmem).2⟩

/-- **The names that a schema refers to, as far as they are schemas, are the targets of its edges.** -/
theorem Describes.scope {g : Graph} {n : String} (h : g.Describes schemas names) (hn : n ∈ names) :
    ValueInScope (fun m => schemas.has m = true → g.Edge n m) (schemas.value n) := by
  obtain ⟨found, hfound, hof⟩ := h.edges.2 n hn
  refine ValueInScope.mono (fun m hm hhas => ?_) (names_scope hfound)
  change m ∈ g.dependencies.of n
  rw [hof]
  exact List.mem_filter.mpr ⟨hm, hhas⟩

/-- **In the order of a graph a schema stands before another one that reaches it only if it leads
back.** -/
theorem pairwise_order {g : Graph} (h : Named schemas names) (hg : ofSchemas schemas = .ok g) :
    g.order.Pairwise fun m n => g.Reaches m n → g.Reaches n m := by
  obtain ⟨a, hadj, rfl⟩ := Outcome.map_eq_ok.mp hg
  have hgrouped := grouped (closed_adjacency h.nodup hadj)
  refine List.pairwise_flatten.mpr ⟨fun c hc => ?_, hgrouped.ordered.imp fun hcd => ?_⟩
  · obtain ⟨-, r, -, hmem⟩ := hgrouped.component c hc
    refine List.pairwise_of_forall_mem_list fun m hm n hn _ => ?_
    exact (((hmem n).mp hn).2.symm.trans ((hmem m).mp hm).2).1
  · exact fun m hm n hn hmn => absurd hmn (hcd m hm n hn)

/-- **A schema that does not lead back to one that reaches it stands before it.** -/
theorem idxOf_lt_of_reaches {g : Graph} {m n : String} (h : Named schemas names)
    (hg : ofSchemas schemas = .ok g) (hm : m ∈ names) (hn : n ∈ names) (hmn : g.Reaches m n)
    (hnm : ¬ g.Reaches n m) : g.order.idxOf n < g.order.idxOf m := by
  have hperm := (describes_of_ok h hg).order_perm
  have hmo := hperm.mem_iff.mpr hm
  have hno := hperm.mem_iff.mpr hn
  rcases Nat.lt_trichotomy (g.order.idxOf n) (g.order.idxOf m) with hlt | heq | hlt
  · exact hlt
  · have : n = m := (List.idxOf_inj hno).mp heq
    exact absurd (this ▸ .refl) hnm
  · have hpair := List.pairwise_iff_getElem.mp (pairwise_order h hg) _ _
      (List.idxOf_lt_length_iff.mpr hmo) (List.idxOf_lt_length_iff.mpr hno) hlt
    rw [List.getElem_idxOf, List.getElem_idxOf] at hpair
    exact absurd (hpair hmn) hnm

/-- An entry can be made if every target of a mapping in it is a text. -/
theorem entry_ok_iff {f : Scalar × Value} :
    (∃ e, entry schemas f = .ok e) ↔ ValueTextTargets f.2 := by
  rw [← names_ok_iff]
  constructor
  · rintro ⟨e, he⟩
    obtain ⟨refs, hrefs, -⟩ := Outcome.bind_eq_ok.mp he
    exact ⟨refs, hrefs⟩
  · rintro ⟨refs, hrefs⟩
    exact ⟨_, Outcome.bind_eq_ok.mpr ⟨refs, hrefs, rfl⟩⟩

theorem entry_eq_error {f : Scalar × Value} {e : Fault} (h : entry schemas f = .error e) :
    e = .noMember := by
  unfold entry at h
  cases hn : Reference.names f.2 with
  | ok refs =>
    rw [hn] at h
    cases h
  | error e' =>
    rw [hn] at h
    cases h
    exact names_eq_error hn

/-- **There is a graph if every target of a mapping in the document is a text.** -/
theorem ofSchemas_ok_iff :
    (∃ g, ofSchemas schemas = .ok g) ↔ ∀ f ∈ schemas, ValueTextTargets f.2 := by
  constructor
  · rintro ⟨g, hg⟩ f hf
    obtain ⟨a, hadj, -⟩ := Outcome.map_eq_ok.mp hg
    obtain ⟨found, hfound, -⟩ := Outcome.bind_eq_ok.mp hadj
    obtain ⟨e, -, he⟩ := Outcome.exists_right_of_mem (Outcome.forall₂_of_mapM hfound) hf
    exact entry_ok_iff.mp ⟨e, he⟩
  · intro hall
    obtain ⟨found, hfound⟩ :=
      Outcome.exists_mapM_of_forall fun f hf => entry_ok_iff.mpr (hall f hf)
    exact ⟨_, Outcome.map_eq_ok.mpr ⟨_, Outcome.bind_eq_ok.mpr ⟨found, hfound, rfl⟩, rfl⟩⟩

/-- Otherwise there is a fault, always the same one. -/
theorem ofSchemas_eq_error (hall : ¬ ∀ f ∈ schemas, ValueTextTargets f.2) :
    ofSchemas schemas = .error .noMember := by
  push Not at hall
  obtain ⟨f, hf, hbad⟩ := hall
  have hfail : ∀ e, entry schemas f ≠ .ok e := fun e he => hbad (entry_ok_iff.mp ⟨e, he⟩)
  rw [ofSchemas, adjacency_eq,
    Outcome.mapM_eq_error (fun f e => @entry_eq_error schemas f e) ⟨f, hf, hfail⟩]
  rfl

/-- **Named schemas have a graph that describes them, unless somewhere a discriminator mapping has a
target that is no text; then they have none.** -/
theorem ofSchemas_describes (h : Named schemas names) :
    ((∀ f ∈ schemas, ValueTextTargets f.2) →
      ∃ g, ofSchemas schemas = .ok g ∧ g.Describes schemas names) ∧
    (¬ (∀ f ∈ schemas, ValueTextTargets f.2) → ofSchemas schemas = .error .noMember) := by
  refine ⟨fun hall => ?_, ofSchemas_eq_error⟩
  obtain ⟨g, hg⟩ := ofSchemas_ok_iff.mpr hall
  exact ⟨g, hg, describes_of_ok h hg⟩

/-- Two schemas that refer to each other, and one that refers to them. -/
def cycleSchemas : Fields :=
  [(.text "A", .object [(.text "$ref", .text "#/components/schemas/B")]),
   (.text "B", .object [(.text "type", .text "array"),
     (.text "items", .object [(.text "$ref", .text "#/components/schemas/A")])]),
   (.text "C", .object [(.text "type", .text "array"),
     (.text "items", .object [(.text "$ref", .text "#/components/schemas/A")])])]

theorem ofSchemas_describes_cycle :
    ∃ g, ofSchemas cycleSchemas = .ok g ∧ g.Describes cycleSchemas ["A", "B", "C"] :=
  (ofSchemas_describes ⟨by decide, by decide⟩).1 (ofSchemas_ok_iff.mp ⟨_, rfl⟩)

/-- A schema with a mapping target that is a number. -/
def numberTarget : Fields :=
  [(.text "A", .object [(.text "discriminator",
    .object [(.text "mapping", .object [(.text "x", .int 1)])])])]

theorem not_exists_numberTarget_graph :
    Named numberTarget ["A"] ∧ ¬ ∃ g, ofSchemas numberTarget = .ok g := by
  refine ⟨⟨by decide, by decide⟩, ?_⟩
  rintro ⟨g, hg⟩
  cases hg

end Graph

end SchemaForge.Reference
