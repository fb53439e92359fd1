import SchemaForge.Proofs.Compile.NameTable
import SchemaForge.Proofs.Naming.Identifier

/-!
# Which declared names are identifiers

Without a prefix, a suffix and prefixes to strip, the constant of a schema is its name in camel
case, perhaps with a number, and an ending; its type is the name in Pascal case, perhaps with a
number. The number and the ending only go on with what is there, so the names are identifiers
exactly if the two ways of writing make identifiers of the schema's name.
-/

namespace SchemaForge

open Naming Script

/-- Options under which names are not given anything that the schemas do not say. -/
structure Context.Unaffixed (ctx : Context) : Prop where
  constPrefix : ctx.constPrefix.isSet = false
  constSuffix : ctx.constSuffix.isSet = false
  strip : ctx.strip.patterns = []

namespace NameTable

/-- The names of a schema: what it asks for, perhaps with a number. -/
structure Spells (schema const type : String) : Prop where
  const : ∃ number : List Char, (∀ d ∈ number, d.isDigit = true) ∧
    const.toList = camelWords schema.toList ++ number ++ constEnding.toList ∧
    (schema = "" → number = [])
  type : ∃ number : List Char, (∀ d ∈ number, d.isDigit = true) ∧
    type.toList = pascalChars schema.toList ++ number

theorem isPart_of_isDigit {d : Char} (h : d.isDigit = true) : isPart d = true :=
  isPart_of_isAlphanum (by rw [Char.isAlphanum, h, Bool.or_true])

namespace Spells

variable {schema const type : String}

/-- **Neither a number nor the ending makes a constant an identifier or keeps it from being one**,
unless nothing else is there. -/
theorem isIdentifier_const_iff (h : Spells schema const type) :
    isIdentifier const.toList = true ↔ StartsConstant schema.toList := by
  obtain ⟨number, hnumber, hconst, hempty⟩ := h.const
  have hending : ∀ c ∈ constEnding.toList, isPart c = true := fun c hc =>
    isPart_of_isAlphanum (List.all_eq_true.mp (by decide : constEnding.toList.all _ = true) c hc)
  rw [hconst]
  by_cases hne : schema = ""
  · subst hne
    rw [hempty rfl]
    exact iff_of_true (by decide) (Or.inl rfl)
  · have hchars : schema.toList ≠ [] := by simpa using hne
    have hcamel : camelWords schema.toList ≠ [] := fun hnil =>
      hchars (camelWords_eq_nil_iff.mp hnil)
    rw [List.append_assoc, isIdentifier_append hcamel, isIdentifier_camelWords_iff hchars]
    exact List.forall_mem_append.mpr ⟨fun d hd => isPart_of_isDigit (hnumber d hd), hending⟩

theorem isIdentifier_type_iff (h : Spells schema const type) :
    isIdentifier type.toList = true ↔ ¬ TrailsLineFeed isSimple schema.toList := by
  obtain ⟨number, hnumber, htype⟩ := h.type
  rw [htype, isIdentifier_append (pascalChars_ne_nil _), isIdentifier_pascalChars_iff]
  exact fun d hd => isPart_of_isDigit (hnumber d hd)

end Spells

/-! ## Allocation -/

/-- All names are spelled so, and only the empty name has a constant with nothing before its
ending. -/
structure Spelled (table : NameTable) : Prop where
  entries : ∀ e ∈ table.entries, Spells e.schema e.const e.type
  empty : "" ∈ table.consts → "" ∈ table.entries.map NameEntry.schema

variable {ctx : Context} {table : NameTable}

theorem strip_unaffixed (hctx : ctx.Unaffixed) (name : String) :
    strip ctx.strip name = .ok name := by
  rw [strip, hctx.strip]
  exact congrArg Except.ok String.ofList_toList

theorem constBase_unaffixed (hctx : ctx.Unaffixed) (name : String) :
    constBase ctx name = .ok (String.ofList (camelWords name.toList)) := by
  have haffix : ∀ {v : Value}, v.isSet = false → affix v = .ok [] := fun h => by
    unfold affix
    exact if_neg (by rw [h]; exact Bool.false_ne_true)
  rw [constBase, camelCase, haffix hctx.constPrefix, haffix hctx.constSuffix]
  rfl

theorem add_unaffixed (hctx : ctx.Unaffixed) (table : NameTable) (schema : String) :
    ∃ records, table.add ctx (.text schema) = .ok {
      entries := table.entries ++ [⟨schema,
        freeName (String.ofList (camelWords schema.toList)) table.consts ++ constEnding,
        freeName (pascalCase schema) table.types⟩]
      consts := table.consts ++ [freeName (String.ofList (camelWords schema.toList)) table.consts]
      types := table.types ++ [freeName (pascalCase schema) table.types]
      records } := by
  rw [add, strip_unaffixed hctx]
  show ∃ records, (constBase ctx schema >>= _) = _
  rw [constBase_unaffixed hctx]
  exact ⟨_, rfl⟩

/-- **A schema more is spelled by its name**, if it is not in the table yet. -/
theorem Spelled.add (h : table.Spelled) (hctx : ctx.Unaffixed) {schema : String}
    (hfresh : schema ∉ table.entries.map NameEntry.schema) :
    ∃ table', table.add ctx (.text schema) = .ok table' ∧ table'.Spelled ∧
      table'.entries.map NameEntry.schema = table.entries.map NameEntry.schema ++ [schema] := by
  obtain ⟨records, hadd⟩ := add_unaffixed hctx table schema
  obtain ⟨number, hnumber, hconst, hfree⟩ :=
    exists_toList_freeName (String.ofList (camelWords schema.toList)) table.consts
  obtain ⟨number', hnumber', htype, -⟩ := exists_toList_freeName (pascalCase schema) table.types
  rw [String.toList_ofList] at hconst
  refine ⟨_, hadd, ⟨?_, ?_⟩, by simp⟩
  · refine List.forall_mem_append.mpr ⟨h.entries, List.forall_mem_singleton.mpr ⟨?_, ?_⟩⟩
    · refine ⟨number, hnumber, by rw [String.toList_append, hconst], ?_⟩
      rintro rfl
      exact hfree fun hmem => hfresh (h.empty hmem)
    · exact ⟨number', hnumber', by rw [htype, pascalCase, String.toList_ofList]⟩
  · intro hmem
    rw [List.map_append, List.mem_append]
    rcases List.mem_append.mp hmem with hmem | hmem
    · exact Or.inl (h.empty hmem)
    · rw [← List.mem_singleton.mp hmem] at hconst
      have hnil := (List.append_eq_nil_iff.mp hconst.symm).1
      have hschema := camelWords_eq_nil_iff.mp hnil
      exact Or.inr (by simpa using hschema.symm)

theorem exists_foldlM_spelled (hctx : ctx.Unaffixed) : ∀ {names : List String} {table : NameTable},
    table.Spelled → (table.entries.map NameEntry.schema ++ names).Nodup →
    ∃ table', (names.map Scalar.text).foldlM (NameTable.add ctx) table = .ok table' ∧ table'.Spelled
  | [], table, h, _ => ⟨table, rfl, h⟩
  | name :: names, table, h, hnodup => by
    have hfresh : name ∉ table.entries.map NameEntry.schema := fun hmem =>
      (List.nodup_append.mp hnodup).2.2 name hmem name List.mem_cons_self rfl
    obtain ⟨next, hadd, hnext, hschemas⟩ := h.add hctx hfresh
    rw [List.append_cons, ← hschemas] at hnodup
    obtain ⟨table', hfold, htable'⟩ := exists_foldlM_spelled hctx hnext hnodup
    refine ⟨table', ?_, htable'⟩
    rw [List.map_cons, List.foldlM_cons, hadd]
    exact hfold

/-- **Every name of a schema is spelled by the schema's name**, in the document or outside of it. -/
theorem Spelled.spells (h : table.Spelled) (hctx : ctx.Unaffixed) (name : String) :
    ∃ const type, table.constName ctx name = .ok const ∧ table.typeName ctx name = .ok type ∧
      Spells name const type := by
  rw [constName, typeName]
  cases hfind : table.find? name with
  | some e =>
    have hschema : e.schema = name := by simpa using List.find?_some hfind
    refine ⟨e.const, e.type, rfl, rfl, ?_⟩
    rw [← hschema]
    exact h.entries e (List.mem_of_find?_eq_some hfind)
  | none =>
    dsimp only
    rw [strip_unaffixed hctx]
    refine ⟨String.ofList (camelWords name.toList) ++ constEnding, pascalCase name, ?_, rfl, ?_⟩
    · show (constBase ctx name >>= _) = _
      rw [constBase_unaffixed hctx]
      rfl
    · refine ⟨⟨[], List.forall_mem_nil _, ?_, fun _ => rfl⟩, [], List.forall_mem_nil _, ?_⟩
      · rw [String.toList_append, String.toList_ofList, List.append_nil]
      · rw [pascalCase, String.toList_ofList, List.append_nil]

end NameTable

namespace Environment

/--
**Which declared names are identifiers.** Schemas with distinct names get their names, without
affixes and prefixes to strip. The constant of a name is an identifier exactly if the name starts
one, and the type exactly if the name is no simple name with a line feed after it.
-/
theorem isIdentifier_names_iff {ctx : Context} (hctx : ctx.Unaffixed) {schemas : Fields}
    {names : List String} (hnames : schemas.names = names.map Scalar.text) (hnodup : names.Nodup)
    (graph : Reference.Graph) :
    ∃ env, make schemas ctx graph = .ok env ∧ ∀ name, ∃ const type,
      env.constName name = .ok const ∧ env.typeName name = .ok type ∧
      (isIdentifier const.toList = true ↔ StartsConstant name.toList) ∧
      (isIdentifier type.toList = true ↔ ¬ TrailsLineFeed isSimple name.toList) := by
  have hempty : NameTable.Spelled {} := ⟨List.forall_mem_nil _, fun h => nomatch h⟩
  obtain ⟨table, htable, hspelled⟩ := NameTable.exists_foldlM_spelled hctx hempty hnodup
  refine ⟨{ schemas, context := ctx, graph, names := table }, ?_, fun name => ?_⟩
  · rw [make, NameTable.ofSchemas, hnames, htable]
    rfl
  · obtain ⟨const, type, hconst, htype, hspells⟩ := hspelled.spells hctx name
    exact ⟨const, type, hconst, htype, hspells.isIdentifier_const_iff,
      hspells.isIdentifier_type_iff⟩

/-- A name with separators, one that starts with a digit, and a simple one with a line feed. -/
def assortedNames : Fields := [(.text "Pet.Store", .bool true), (.text "2fa-token", .bool true),
  (.text "A\n", .bool true)]

theorem isIdentifier_names_iff_assorted : ∃ ctx, Context.ofConfig {} = .ok ctx ∧ ctx.Unaffixed ∧
    assortedNames.names = ["Pet.Store", "2fa-token", "A\n"].map Scalar.text ∧
    ["Pet.Store", "2fa-token", "A\n"].Nodup ∧
    ∃ env, make assortedNames ctx {} = .ok env ∧
      (∃ const type, env.constName "Pet.Store" = .ok const ∧ env.typeName "Pet.Store" = .ok type ∧
        isIdentifier const.toList = true ∧ isIdentifier type.toList = true) ∧
      (∃ const, env.constName "2fa-token" = .ok const ∧ isIdentifier const.toList = false) ∧
      ∃ type, env.typeName "A\n" = .ok type ∧ isIdentifier type.toList = false := by
  obtain ⟨ctx, hconfig, hctx⟩ : ∃ ctx, Context.ofConfig {} = .ok ctx ∧ ctx.Unaffixed :=
    ⟨_, rfl, rfl, rfl, rfl⟩
  have htexts : assortedNames.names = ["Pet.Store", "2fa-token", "A\n"].map Scalar.text := rfl
  have hnodup : ["Pet.Store", "2fa-token", "A\n"].Nodup := by decide
  obtain ⟨env, henv, hnames⟩ := isIdentifier_names_iff hctx htexts hnodup {}
  refine ⟨ctx, hconfig, hctx, htexts, hnodup, env, henv, ?_, ?_, ?_⟩
  · obtain ⟨const, type, hconst, htype, hconstIff, htypeIff⟩ := hnames "Pet.Store"
    have hstarts : StartsConstant "Pet.Store".toList := by
      show 'P'.isDigit = false
      decide
    refine ⟨const, type, hconst, htype, hconstIff.mpr hstarts, htypeIff.mpr ?_⟩
    rintro ⟨before, -, heq⟩
    exact absurd (heq ▸ List.mem_append_right before (List.mem_singleton_self '\n')) (by decide)
  · obtain ⟨const, -, hconst, -, hconstIff, -⟩ := hnames "2fa-token"
    refine ⟨const, hconst, Bool.eq_false_iff.mpr fun h => ?_⟩
    have hstarts : '2'.isDigit = false := hconstIff.mp h
    exact absurd hstarts (by decide)
  · obtain ⟨-, type, -, htype, -, htypeIff⟩ := hnames "A\n"
    refine ⟨type, htype, Bool.eq_false_iff.mpr fun h => htypeIff.mp h ⟨['A'], rfl, ?_⟩⟩
    decide

/-- A constant that starts with a digit, and a type with a line feed in it. -/
theorem not_isIdentifier_declared : ∃ ctx env, Context.ofConfig {} = .ok ctx ∧
    make assortedNames ctx {} = .ok env ∧
    env.constName "2fa-token" = .ok "2faTokenSchema" ∧
    isIdentifier "2faTokenSchema".toList = false ∧
    env.typeName "A\n" = .ok "A\n" ∧ isIdentifier "A\n".toList = false :=
  ⟨_, _, rfl, rfl, by decide +kernel, by decide +kernel, by decide +kernel, by decide +kernel⟩

end Environment

end SchemaForge
