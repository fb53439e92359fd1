import Mathlib.Data.Set.Function
import SchemaForge.Proofs.Compile.Transparency
import SchemaForge.Proofs.Naming.Allocation

/-!
# Names of schemas are unique

The names of a document are allocated one after another, and each was free when it was allocated. So a
table of names has an entry for every schema, and no two of its entries have a constant or a type in
common, however many names look alike once they are stripped and put in camel case.

All views of an environment have the table of the environment that they are views of: the options that
a view may set have nothing to do with names.
-/

namespace SchemaForge

/-! ## Tables -/

namespace NameTable

variable {ctx : Context} {table table' : NameTable}

/-- No constant and no type was given twice. -/
structure Lawful (table : NameTable) : Prop where
  consts : table.entries.map NameEntry.const = table.consts.map (· ++ constEnding)
  types : table.entries.map NameEntry.type = table.types
  distinctConsts : table.consts.Nodup
  distinctTypes : table.types.Nodup

theorem lawful_empty : Lawful {} := ⟨rfl, rfl, List.nodup_nil, List.nodup_nil⟩

/-- **One more name** takes a constant and a type that are free, or nothing is added. -/
theorem add_eq_ok {name : Scalar} (h : table.add ctx name = .ok table') :
    ∃ (schema stripped base : String) (records : List LogRecord), name = .text schema ∧
      table' = {
        entries := table.entries ++ [⟨schema, Naming.freeName base table.consts ++ constEnding,
          Naming.freeName (Naming.pascalCase stripped) table.types⟩]
        consts := table.consts ++ [Naming.freeName base table.consts]
        types := table.types ++ [Naming.freeName (Naming.pascalCase stripped) table.types]
        records } := by
  unfold add at h
  split at h
  · obtain ⟨stripped, -, h⟩ := Outcome.bind_eq_ok.mp h
    obtain ⟨base, -, h⟩ := Outcome.bind_eq_ok.mp h
    cases h
    exact ⟨_, stripped, base, _, rfl, rfl⟩
  · cases h

/-- **A schema more takes no name that another one has.** -/
theorem Lawful.add (h : table.Lawful) {name : Scalar} (hadd : table.add ctx name = .ok table') :
    table'.Lawful := by
  obtain ⟨schema, stripped, base, records, rfl, rfl⟩ := add_eq_ok hadd
  constructor
  · simp [h.consts]
  · simp [h.types]
  · exact List.nodup_append_comm.mp
      (List.nodup_cons.mpr ⟨Naming.freeName_not_mem _ _, h.distinctConsts⟩)
  · exact List.nodup_append_comm.mp
      (List.nodup_cons.mpr ⟨Naming.freeName_not_mem _ _, h.distinctTypes⟩)

/-- The schemas of a table. -/
def schemaNames (table : NameTable) : List Scalar := table.entries.map fun e => .text e.schema

/-- All names, one after another: the table stays lawful. -/
theorem foldlM_add : ∀ {names : List Scalar} {table table' : NameTable}, table.Lawful →
    names.foldlM (add ctx) table = .ok table' →
    table'.Lawful ∧ table'.schemaNames = table.schemaNames ++ names
  | [], table, _, h, hfold => by
    cases hfold
    exact ⟨h, (List.append_nil _).symm⟩
  | name :: names, table, table', h, hfold => by
    rw [List.foldlM_cons] at hfold
    obtain ⟨next, hadd, hfold⟩ := Outcome.bind_eq_ok.mp hfold
    obtain ⟨hlawful, hnames⟩ := foldlM_add (h.add hadd) hfold
    refine ⟨hlawful, ?_⟩
    obtain ⟨schema, stripped, base, records, rfl, rfl⟩ := add_eq_ok hadd
    rw [hnames]
    simp [schemaNames]

/-- **The table of a document is lawful**, with an entry for each of its names. -/
theorem ofSchemas_lawful {schemas : Fields} (h : ofSchemas ctx schemas = .ok table) :
    table.Lawful ∧ table.schemaNames = schemas.names :=
  foldlM_add lawful_empty h

/-- The schemas of a document have entries. -/
theorem exists_entry {schemas : Fields} (h : ofSchemas ctx schemas = .ok table) {name : String}
    (hname : schemas.has name = true) :
    ∃ e ∈ table.entries, e.schema = name ∧ table.find? name = some e := by
  have hmem : Scalar.text name ∈ table.schemaNames := by
    rw [(ofSchemas_lawful h).2]
    exact Fields.has_iff_mem_names.mp hname
  obtain ⟨e, he, heq⟩ := List.mem_map.mp hmem
  cases heq
  have hsome : (table.find? e.schema).isSome = true :=
    List.find?_isSome.mpr ⟨e, he, beq_self_eq_true e.schema⟩
  obtain ⟨found, hfound⟩ := Option.isSome_iff_exists.mp hsome
  exact ⟨found, List.mem_of_find?_eq_some hfound, by simpa using List.find?_some hfound, hfound⟩

/-- No two entries share a constant. -/
theorem Lawful.eq_of_const (h : table.Lawful) {e e' : NameEntry} (he : e ∈ table.entries)
    (he' : e' ∈ table.entries) (hconst : e.const = e'.const) : e = e' := by
  refine List.inj_on_of_nodup_map ?_ he he' hconst
  rw [h.consts]
  exact h.distinctConsts.map fun c c' hc => by simpa using hc

/-- No two entries share a type. -/
theorem Lawful.eq_of_type (h : table.Lawful) {e e' : NameEntry} (he : e ∈ table.entries)
    (he' : e' ∈ table.entries) (htype : e.type = e'.type) : e = e' := by
  refine List.inj_on_of_nodup_map ?_ he he' htype
  rw [h.types]
  exact h.distinctTypes

end NameTable

/-! ## Naming options -/

/-- An affix that is left out or is a text. -/
def IsAffix (v : Value) : Prop := v = .null ∨ ∃ s, v = .text s

/-- The options for names are of the types that they are declared with. -/
structure Context.NamesByTexts (ctx : Context) : Prop where
  constPrefix : IsAffix ctx.constPrefix
  constSuffix : IsAffix ctx.constSuffix
  strip : ∃ patterns : List String, ctx.strip.patterns = patterns.map Value.text

theorem IsAffix.exists_affix {v : Value} (h : IsAffix v) : ∃ cs, Naming.affix v = .ok cs := by
  rcases h with rfl | ⟨s, rfl⟩
  · exact ⟨[], rfl⟩
  · unfold Naming.affix
    split
    · exact ⟨_, rfl⟩
    · exact ⟨_, rfl⟩

namespace NameTable

variable {ctx : Context}

/-- A name that is a text can be added, whatever the table. -/
theorem exists_add (hctx : ctx.NamesByTexts) (table : NameTable) (schema : String) :
    ∃ table', table.add ctx (.text schema) = .ok table' := by
  obtain ⟨patterns, hpatterns⟩ := hctx.strip
  obtain ⟨pre, hpre⟩ := hctx.constPrefix.exists_affix
  obtain ⟨post, hpost⟩ := hctx.constSuffix.exists_affix
  have hstrip : ∃ stripped, Naming.strip ctx.strip schema = .ok stripped := by
    rw [Naming.strip, hpatterns, Naming.stripValues_texts]
    exact ⟨_, rfl⟩
  obtain ⟨stripped, hstrip⟩ := hstrip
  have hbase : constBase ctx stripped =
      .ok (String.ofList (Naming.camelChars pre post stripped.toList)) := by
    rw [constBase, Naming.camelCase, hpre, hpost]
    rfl
  have hadd : table.add ctx (.text schema) =
      Naming.strip ctx.strip schema >>= fun stripped => constBase ctx stripped >>= _ := rfl
  rw [hadd, hstrip]
  show ∃ table', (constBase ctx stripped >>= _) = Except.ok table'
  rw [hbase]
  exact ⟨_, rfl⟩

/-- **Texts get names.** -/
theorem exists_ofSchemas (hctx : ctx.NamesByTexts) {schemas : Fields} {names : List String}
    (hnames : schemas.names = names.map Scalar.text) : ∃ table, ofSchemas ctx schemas = .ok table := by
  have hfold : ∀ (names : List String) (table : NameTable), ∃ table',
      (names.map Scalar.text).foldlM (add ctx) table = .ok table' := by
    intro names
    induction names with
    | nil => exact fun table => ⟨table, rfl⟩
    | cons name names ih =>
      intro table
      obtain ⟨next, hnext⟩ := exists_add hctx table name
      obtain ⟨table', htable'⟩ := ih next
      refine ⟨table', ?_⟩
      rw [List.map_cons, List.foldlM_cons, hnext]
      exact htable'
  rw [ofSchemas, hnames]
  exact hfold names {}

end NameTable

/-! ## Environments and their views -/

namespace Environment

variable {schemas : Fields} {ctx : Context} {graph : Reference.Graph} {base env : Environment}

theorem names_of_make (h : make schemas ctx graph = .ok base) :
    NameTable.ofSchemas ctx schemas = .ok base.names := by
  obtain ⟨table, htable, h⟩ := Outcome.bind_eq_ok.mp h
  cases h
  exact htable

/-- A view shares the table with what it is a view of. -/
theorem IsView.names (hbase : make schemas ctx graph = .ok base) (h : base.IsView env) :
    env.names = base.names := by
  obtain ⟨mode, useDescribe, includeDescriptions, rfl⟩ := h.eq_withOptions hbase
  rfl

/-- The names of a schema in an environment are those of its entry. -/
theorem exists_entry_of_view (hbase : make schemas ctx graph = .ok base) {name : String}
    (hname : schemas.has name = true) : ∃ e ∈ base.names.entries, e.schema = name ∧
      ∀ env, base.IsView env → env.constName name = .ok e.const ∧ env.typeName name = .ok e.type := by
  obtain ⟨e, he, hschema, hfind⟩ := NameTable.exists_entry (names_of_make hbase) hname
  refine ⟨e, he, hschema, fun env hview => ?_⟩
  rw [constName, typeName, NameTable.constName, NameTable.typeName, hview.names hbase, hfind]
  exact ⟨rfl, rfl⟩

theorem exists_make (hctx : ctx.NamesByTexts) {names : List String}
    (hnames : schemas.names = names.map Scalar.text) : ∃ base, make schemas ctx graph = .ok base := by
  obtain ⟨table, htable⟩ := NameTable.exists_ofSchemas hctx hnames
  refine ⟨{ schemas, context := ctx, graph, names := table }, ?_⟩
  rw [make, htable]
  rfl

theorem exists_view (hbase : make schemas ctx graph = .ok base) (o : Overrides) :
    ∃ env, base.view (.overrides o) = .ok env := by
  have htable := names_of_make hbase
  have hsame : NameTable.ofSchemas (ctx.override o) schemas = .ok base.names := htable
  obtain ⟨table, -, hbase⟩ := Outcome.bind_eq_ok.mp hbase
  cases hbase
  refine ⟨{ schemas, context := ctx.override o, graph, names := table }, ?_⟩
  show make schemas (ctx.override o) graph = _
  rw [make, hsame]
  rfl

/--
**Every schema has a constant and a type of its own, in all views the same.** Schemas that are named by
texts get their names under any naming options of the declared types, and views with any overrides are
made. Wherever an environment is made, every view of it gives a schema the same two names, and no two
schemas have a constant or a type in common.
-/
theorem names_injective (schemas : Fields) (ctx : Context) (graph : Reference.Graph) :
    (ctx.NamesByTexts → ∀ names : List String, schemas.names = names.map Scalar.text →
      ∃ base, make schemas ctx graph = .ok base ∧ ∀ o, ∃ env, base.view (.overrides o) = .ok env) ∧
    ∀ base, make schemas ctx graph = .ok base → ∃ const type : String → String,
      (∀ env, base.IsView env → ∀ name, schemas.has name = true →
        env.constName name = .ok (const name) ∧ env.typeName name = .ok (type name)) ∧
      Set.InjOn const {name | schemas.has name = true} ∧
      Set.InjOn type {name | schemas.has name = true} := by
  refine ⟨fun hctx names hnames => ?_, fun base hbase => ?_⟩
  · obtain ⟨base, hbase⟩ := exists_make hctx hnames
    exact ⟨base, hbase, exists_view hbase⟩
  · have hlawful := (NameTable.ofSchemas_lawful (names_of_make hbase)).1
    have : Nonempty NameEntry := ⟨⟨"", "", ""⟩⟩
    choose! entry hentry hschema hnames using
      fun (name : String) (h : schemas.has name = true) => exists_entry_of_view hbase h
    refine ⟨fun name => (entry name).const, fun name => (entry name).type,
      fun env hview name hname => hnames name hname env hview, ?_, ?_⟩
    · intro a ha b hb heq
      rw [← hschema a ha, hlawful.eq_of_const (hentry a ha) (hentry b hb) heq, hschema b hb]
    · intro a ha b hb heq
      rw [← hschema a ha, hlawful.eq_of_type (hentry a ha) (hentry b hb) heq, hschema b hb]

/-- Three names that ask for one constant and one type, or for those that another one gets. -/
def lookalikes : Fields := [(.text "Api.user", .bool true), (.text "User", .bool true),
  (.text "User2", .bool true)]

theorem names_injective_lookalikes : ∃ ctx base view,
    Context.ofConfig { constPrefix := .text "my", stripped := .list [.text "Api."] } = .ok ctx ∧
    make lookalikes ctx {} = .ok base ∧
    base.view (.overrides { mode := some .strict }) = .ok view ∧
    (["Api.user", "User", "User2"].mapM base.constName).toOption =
      some ["myUserSchema", "myUser2Schema", "myUser22Schema"] ∧
    (["Api.user", "User", "User2"].mapM base.typeName).toOption = some ["User", "User2", "User22"] ∧
    (∃ base', make lookalikes ctx {} = .ok base' ∧ ∀ o, ∃ env, base'.view (.overrides o) = .ok env) ∧
    ∃ const type : String → String, view.constName "User2" = .ok (const "User2") ∧
      view.typeName "User2" = .ok (type "User2") ∧ const "User" ≠ const "User2" ∧
      type "User" ≠ type "User2" := by
  obtain ⟨ctx, base, view, hctx, hbase, hview, hconsts, htypes, hpre, hpost, hstrip⟩ :
      ∃ ctx base view,
      Context.ofConfig { constPrefix := .text "my", stripped := .list [.text "Api."] } = .ok ctx ∧
      make lookalikes ctx {} = .ok base ∧
      base.view (.overrides { mode := some .strict }) = .ok view ∧
      (["Api.user", "User", "User2"].mapM base.constName).toOption =
        some ["myUserSchema", "myUser2Schema", "myUser22Schema"] ∧
      (["Api.user", "User", "User2"].mapM base.typeName).toOption =
        some ["User", "User2", "User22"] ∧
      ctx.constPrefix = .text "my" ∧ ctx.constSuffix = .null ∧
      ctx.strip.patterns = ["Api."].map Value.text :=
    ⟨_, _, _, rfl, rfl, rfl, by decide +kernel, by decide +kernel, rfl, rfl, rfl⟩
  have hnames := names_injective lookalikes ctx {}
  obtain ⟨const, type, hall, hconst, htype⟩ := hnames.2 base hbase
  obtain ⟨hviewConst, hviewType⟩ := hall view (Or.inr ⟨_, hview⟩) "User2" rfl
  have hfirst : "User" ∈ {name | lookalikes.has name = true} := rfl
  have hsecond : "User2" ∈ {name | lookalikes.has name = true} := rfl
  refine ⟨ctx, base, view, hctx, hbase, hview, hconsts, htypes, ?_, const, type, hviewConst, hviewType,
    fun h => ?_, fun h => ?_⟩
  · exact hnames.1 ⟨Or.inr ⟨_, hpre⟩, Or.inl hpost, _, hstrip⟩ ["Api.user", "User", "User2"] rfl
  · exact absurd (hconst hfirst hsecond h) (by decide)
  · exact absurd (htype hfirst hsecond h) (by decide)

end Environment

end SchemaForge
