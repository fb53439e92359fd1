import Mathlib.Data.List.Nodup
import SchemaForge.ModuleText
import SchemaForge.Proofs.Compile.NameTable
import SchemaForge.Proofs.Validation

/-!
# What a module exports

Every definition of a module exports a constant, its type unless types come from elsewhere, and its
enum if it declares one. Constants and types have names that no other schema has, and a constant is
never called like an enum, since the two end differently.

The name of an enum, however, is made from the name of its type, and nothing keeps it apart from
other names: `XEnum` is what the enums of `X` and of `XEnumOptions` are called, and it may be the type
of a third schema. `exports_nodup_iff` says that modules in which this happens are the only ones that
export a name twice.
-/

namespace SchemaForge

/-! ## Names of enums -/

namespace EnumDeclaration

/-- A type whose enum keeps the whole name of the type. -/
def KeepsName (type : String) : Prop := ∀ stem, type ≠ stem ++ "EnumOptions"

theorem nameOf_options (stem : String) : nameOf (stem ++ "EnumOptions") = stem ++ "Enum" := by
  have hends : Text.endsWith "EnumOptions".toList (stem ++ "EnumOptions").toList = true :=
    Text.endsWith_iff_isSuffix.mpr ⟨stem.toList, by simp⟩
  simp only [nameOf, hends, if_true]
  simp

theorem nameOf_of_keepsName {type : String} (h : KeepsName type) : nameOf type = type ++ "Enum" := by
  have hends : ¬ Text.endsWith "EnumOptions".toList type.toList = true := by
    rw [Text.endsWith_iff_isSuffix]
    rintro ⟨stem, hstem⟩
    refine h (String.ofList stem) (String.ext ?_)
    simpa using hstem.symm
  simp only [nameOf, hends]
  rfl

/-- The name of an enum is the name of its type, or what comes before its ending, with `Enum`. -/
theorem nameOf_cases (type : String) :
    (KeepsName type ∧ nameOf type = type ++ "Enum") ∨
      ∃ stem, type = stem ++ "EnumOptions" ∧ nameOf type = stem ++ "Enum" := by
  by_cases h : KeepsName type
  · exact Or.inl ⟨h, nameOf_of_keepsName h⟩
  · simp only [KeepsName, ne_eq, not_forall, not_not] at h
    obtain ⟨stem, rfl⟩ := h
    exact Or.inr ⟨stem, rfl, nameOf_options stem⟩

/-- **The enums of two types have one name if the second type is the first with `EnumOptions`.** -/
theorem nameOf_eq_iff {s t : String} : nameOf s = nameOf t ↔
    s = t ∨ (KeepsName s ∧ t = s ++ "EnumOptions") ∨ (KeepsName t ∧ s = t ++ "EnumOptions") := by
  constructor
  · intro h
    rcases nameOf_cases s with ⟨hs, hsn⟩ | ⟨stem, rfl, hsn⟩ <;>
      rcases nameOf_cases t with ⟨ht, htn⟩ | ⟨stem', rfl, htn⟩ <;>
      rw [hsn, htn, String.append_left_inj] at h <;> subst h
    · exact Or.inl rfl
    · exact Or.inr (Or.inl ⟨hs, rfl⟩)
    · exact Or.inr (Or.inr ⟨ht, rfl⟩)
    · exact Or.inl rfl
  · rintro (rfl | ⟨hs, rfl⟩ | ⟨ht, rfl⟩)
    · rfl
    · rw [nameOf_of_keepsName hs, nameOf_options]
    · rw [nameOf_of_keepsName ht, nameOf_options]

theorem nameOf_ne_const (type base : String) : nameOf type ≠ base ++ NameTable.constEnding := by
  intro h
  obtain ⟨stem, hstem⟩ : ∃ stem, nameOf type = stem ++ "Enum" := by
    rcases nameOf_cases type with ⟨-, hname⟩ | ⟨stem, -, hname⟩
    · exact ⟨type, hname⟩
    · exact ⟨stem, hname⟩
  rw [hstem] at h
  have hlast := congrArg (fun s : String => s.toList.getLast?) h
  simp [NameTable.constEnding] at hlast

end EnumDeclaration

/-! ## Exports -/

/-- An exported name. -/
inductive Export where
  | enum (name : String)
  | const (name : String)
  | type (name : String)
deriving DecidableEq, Repr

namespace Export

/-- How the declaration of an export begins. -/
def opening : Export → String
  | .enum name => "export enum " ++ name ++ " \x7b"
  | .const name => "export const " ++ name ++ " = "
  | .type name => "export type " ++ name ++ " = "

theorem opening_enum (name : String) :
    (Export.enum name).opening = "export enum " ++ name ++ " \x7b" := rfl

theorem opening_const (name : String) :
    (Export.const name).opening = "export const " ++ name ++ " = " := rfl

theorem opening_type (name : String) :
    (Export.type name).opening = "export type " ++ name ++ " = " := rfl

/-- The name among those of values; an enum is a value and a type. -/
def valueName? : Export → Option String
  | .enum name => some name
  | .const name => some name
  | .type _ => none

/-- The name among those of types. -/
def typeName? : Export → Option String
  | .enum name => some name
  | .const _ => none
  | .type name => some name

/-- A piece of a text declares the export. -/
def DeclaredIn (x : Export) (piece : String) : Prop := ∃ rest, piece = x.opening ++ rest

/-- The pieces of a text declare some exports: each export is declared by a piece, and what declares
nothing is empty or a comment. -/
structure Declare (comment : String) (pieces : List String) (exports : List Export) : Prop where
  declared : ∀ x ∈ exports, ∃ piece ∈ pieces, x.DeclaredIn piece
  others : ∀ piece ∈ pieces, piece = "" ∨ piece = comment ∨ ∃ x ∈ exports, x.DeclaredIn piece

namespace Declare

variable {comment : String} {pieces pieces' : List String} {exports exports' : List Export}

theorem append (h : Declare comment pieces exports) (h' : Declare comment pieces' exports') :
    Declare comment (pieces ++ pieces') (exports ++ exports') := by
  constructor
  · intro x hx
    rcases List.mem_append.mp hx with hx | hx
    · obtain ⟨piece, hpiece, hdeclared⟩ := h.declared x hx
      exact ⟨piece, List.mem_append_left _ hpiece, hdeclared⟩
    · obtain ⟨piece, hpiece, hdeclared⟩ := h'.declared x hx
      exact ⟨piece, List.mem_append_right _ hpiece, hdeclared⟩
  · intro piece hpiece
    rcases List.mem_append.mp hpiece with hpiece | hpiece
    · refine (h.others piece hpiece).imp_right (Or.imp_right ?_)
      exact fun ⟨x, hx, hdeclared⟩ => ⟨x, List.mem_append_left _ hx, hdeclared⟩
    · refine (h'.others piece hpiece).imp_right (Or.imp_right ?_)
      exact fun ⟨x, hx, hdeclared⟩ => ⟨x, List.mem_append_right _ hx, hdeclared⟩

theorem nil : Declare comment [] [] := ⟨nofun, nofun⟩

theorem single {x : Export} {piece : String} (h : x.DeclaredIn piece) :
    Declare comment [piece] [x] := by
  constructor
  · rintro y hy
    rw [List.mem_singleton.mp hy]
    exact ⟨piece, List.mem_singleton_self piece, h⟩
  · intro piece' hpiece
    rw [List.mem_singleton.mp hpiece]
    exact Or.inr (Or.inr ⟨x, List.mem_singleton_self x, h⟩)

/-- Empty pieces and comments declare nothing. -/
theorem silent (h : ∀ piece ∈ pieces, piece = "" ∨ piece = comment) : Declare comment pieces [] :=
  ⟨nofun, fun piece hpiece => (h piece hpiece).imp_right Or.inl⟩

end Declare

end Export

namespace Definition

/-- The name of the declared enum. -/
def enumName? (d : Definition) : Option String :=
  d.enumCode.map fun _ => EnumDeclaration.nameOf d.type

/-- What a definition exports; the type is left out if types come from elsewhere. -/
def exports (withType : Bool) (d : Definition) : List Export :=
  d.enumName?.toList.map Export.enum ++ [.const d.const] ++ (if withType then [.type d.type] else [])

variable {d : Definition}

/-- If a definition has the code of an enum, it is the declaration of the enum of its type. -/
def DeclaresEnum (d : Definition) : Prop := ∀ code ∈ d.enumCode, ∃ values,
  code = EnumDeclaration.declaration (EnumDeclaration.nameOf d.type) values

theorem declaredIn_declaration (name : String) (values : List Value) :
    (Export.enum name).DeclaredIn (EnumDeclaration.declaration name values) := by
  unfold EnumDeclaration.declaration
  refine ⟨"\n" ++ Text.join "\n" ((EnumDeclaration.members values).map fun m =>
    "  " ++ m.1 ++ " = " ++ m.2 ++ ",") ++ "\n\x7d", String.ext ?_⟩
  simp [Export.opening_enum]

theorem declaredIn_typeDeclaration (d : Definition) :
    (Export.type d.type).DeclaredIn d.typeDeclaration := by
  refine ⟨"z.infer<typeof " ++ d.const ++ ">;", String.ext ?_⟩
  delta typeDeclaration
  simp [Export.opening_type]

/-- **The block of a definition declares its exports and nothing else.** -/
theorem block_declares {withType : Bool} {text : String} (henum : d.DeclaresEnum)
    (h : d.block withType = .ok text) : ∃ pieces, text = Text.join "\n" pieces ∧
      Export.Declare d.comment pieces (d.exports withType) := by
  obtain ⟨declaration, hdeclaration, h⟩ := Outcome.bind_eq_ok.mp h
  obtain ⟨printed, -, hdeclaration⟩ := Outcome.bind_eq_ok.mp hdeclaration
  cases hdeclaration
  cases h
  refine ⟨_, rfl, .append (.append ?_ (.single ⟨printed ++ ";", ?_⟩)) ?_⟩
  · rw [← List.append_nil (d.enumName?.toList.map Export.enum)]
    refine .append ?_ (.silent fun piece hpiece => Or.inr ?_)
    · cases hcode : d.enumCode with
      | none =>
        rw [enumName?, hcode]
        exact .nil
      | some code =>
        obtain ⟨values, rfl⟩ := henum code hcode
        rw [enumName?, hcode]
        have hempty : Export.Declare d.comment [""] [] := .silent (by simp)
        exact (Export.Declare.single (declaredIn_declaration _ values)).append hempty
    · split at hpiece
      · cases hpiece
      · exact List.mem_singleton.mp hpiece
  · simp [Export.opening_const, String.append_assoc]
  · cases withType with
    | true => exact .single (declaredIn_typeDeclaration d)
    | false => exact .nil

end Definition

/-! ## Names of a module -/

namespace Definition

variable {d : Definition} {withType : Bool}

theorem valueNames_exports :
    (d.exports withType).filterMap Export.valueName? = d.enumName?.toList ++ [d.const] := by
  cases hname : d.enumName? <;> cases withType <;> simp [exports, hname, Export.valueName?]

theorem typeNames_exports : (d.exports withType).filterMap Export.typeName? =
    d.enumName?.toList ++ if withType then [d.type] else [] := by
  cases hname : d.enumName? <;> cases withType <;>
    simp [exports, hname, Export.typeName?, List.filterMap_cons]

end Definition

namespace Generation

/-- What a module exports, in the order of its definitions. -/
def exports (config : Config) (r : Generation) : List Export :=
  r.ordered.flatMap (Definition.exports !config.separateTypes.isSet)

/-- Each block of a module declares what one of the definitions exports. -/
def DeclaredBy (config : Config) (r : Generation) (blocks : List String) : Prop :=
  List.Forall₂ (fun (d : Definition) block => ∃ pieces, block = Text.join "\n" pieces ∧
    Export.Declare d.comment pieces (d.exports !config.separateTypes.isSet)) r.ordered blocks

/-- The exported names of values. -/
def valueNames (config : Config) (r : Generation) : List String :=
  (r.exports config).filterMap Export.valueName?

/-- The exported names of types. -/
def typeNames (config : Config) (r : Generation) : List String :=
  (r.exports config).filterMap Export.typeName?

/-- The definitions that declare an enum. -/
def declaringEnums (r : Generation) : List Definition := r.ordered.filter (·.enumCode.isSome)

/-- The names of the declared enums. -/
def enumNames (r : Generation) : List String :=
  r.declaringEnums.map fun d => EnumDeclaration.nameOf d.type

/-- Two types have one and the same name for their enums. -/
def EnumsMeet (r : Generation) : Prop := ∃ d ∈ r.declaringEnums, ∃ d' ∈ r.declaringEnums,
  EnumDeclaration.KeepsName d.type ∧ d'.type = d.type ++ "EnumOptions"

/-- A type is called like the enum of another one. -/
def EnumMeetsType (r : Generation) : Prop := ∃ d ∈ r.declaringEnums, ∃ d' ∈ r.ordered,
  d'.type = EnumDeclaration.nameOf d.type

variable {config : Config} {r : Generation}

theorem flatMap_enumName : (r.ordered.flatMap fun d => d.enumName?.toList) = r.enumNames := by
  unfold enumNames declaringEnums
  induction r.ordered with
  | nil => rfl
  | cons d ds ih =>
    rw [List.flatMap_cons, ih, List.filter_cons]
    cases hcode : d.enumCode <;> simp [Definition.enumName?, hcode]

theorem valueNames_perm :
    (r.enumNames ++ r.ordered.map Definition.const).Perm (r.valueNames config) := by
  rw [valueNames, exports, List.filterMap_flatMap]
  simp only [Definition.valueNames_exports]
  rw [← flatMap_enumName, List.map_eq_flatMap]
  exact List.flatMap_append_perm _ _ _

theorem typeNames_perm : (r.enumNames ++
      if config.separateTypes.isSet then [] else r.ordered.map Definition.type).Perm
    (r.typeNames config) := by
  rw [typeNames, exports, List.filterMap_flatMap]
  simp only [Definition.typeNames_exports]
  rw [← flatMap_enumName]
  cases config.separateTypes.isSet with
  | true => simp
  | false =>
    rw [if_neg Bool.false_ne_true, List.map_eq_flatMap]
    exact List.flatMap_append_perm _ _ _

/-- The definitions of a module have constants and types of their own. -/
structure OwnNames (r : Generation) : Prop where
  constEnding : ∀ d ∈ r.ordered, ∃ base, d.const = base ++ NameTable.constEnding
  consts : (r.ordered.map Definition.const).Nodup
  types : (r.ordered.map Definition.type).Nodup

namespace OwnNames

variable (h : r.OwnNames)
include h

/-- **Enums have names of their own unless those of two types meet.** -/
theorem nodup_enumNames_iff : r.enumNames.Nodup ↔ ¬ r.EnumsMeet := by
  have hordered : ∀ {d : Definition}, d ∈ r.declaringEnums → d ∈ r.ordered :=
    fun hd => List.mem_of_mem_filter hd
  have hnodup : r.declaringEnums.Nodup := (List.Nodup.of_map _ h.types).filter _
  rw [enumNames, List.nodup_map_iff_inj_on hnodup]
  constructor
  · rintro hinj ⟨d, hd, d', hd', hkeeps, htype⟩
    have heq := hinj d hd d' hd' (EnumDeclaration.nameOf_eq_iff.mpr (Or.inr (Or.inl ⟨hkeeps, htype⟩)))
    rw [← heq] at htype
    exact hkeeps d.type htype
  · intro hapart d hd d' hd' hname
    rcases EnumDeclaration.nameOf_eq_iff.mp hname with htype | hmeet | hmeet
    · exact List.inj_on_of_nodup_map h.types (hordered hd) (hordered hd') htype
    · exact absurd ⟨d, hd, d', hd', hmeet⟩ hapart
    · exact absurd ⟨d', hd', d, hd, hmeet⟩ hapart

/-- **Values are exported under one name only if two enums are.** -/
theorem nodup_valueNames_iff : (r.valueNames config).Nodup ↔ ¬ r.EnumsMeet := by
  rw [← valueNames_perm.nodup_iff, List.nodup_append', h.nodup_enumNames_iff]
  refine ⟨fun hall => hall.1, fun hapart => ⟨hapart, h.consts, ?_⟩⟩
  intro n hn hn'
  obtain ⟨d, -, rfl⟩ := List.mem_map.mp hn
  obtain ⟨d', hd', heq⟩ := List.mem_map.mp hn'
  obtain ⟨base, hbase⟩ := h.constEnding d' hd'
  exact EnumDeclaration.nameOf_ne_const d.type base (heq.symm.trans hbase)

/-- **Types are exported under one name only if two enums are, or a type is called like an enum.** -/
theorem nodup_typeNames_iff : (r.typeNames config).Nodup ↔
    ¬ r.EnumsMeet ∧ (config.separateTypes.isSet = false → ¬ r.EnumMeetsType) := by
  rw [← typeNames_perm.nodup_iff, List.nodup_append', h.nodup_enumNames_iff]
  refine and_congr_right fun _ => ?_
  cases config.separateTypes.isSet with
  | true => simp
  | false =>
    simp only [Bool.false_eq_true, if_false, forall_const, h.types, true_and]
    constructor
    · rintro hdisjoint ⟨d, hd, d', hd', htype⟩
      exact hdisjoint (List.mem_map_of_mem hd) (List.mem_map.mpr ⟨d', hd', htype⟩)
    · intro hapart n hn hn'
      obtain ⟨d, hd, rfl⟩ := List.mem_map.mp hn
      obtain ⟨d', hd', htype⟩ := List.mem_map.mp hn'
      exact hapart ⟨d, hd, d', hd', htype⟩

end OwnNames

end Generation

namespace Generator

/-! ## Names of the definitions of a run -/

variable {g : Generator}

/-- A generator whose environments are views of one that its schemas give. -/
structure Prepared (g : Generator) : Prop where
  graph : Reference.Graph.ofSchemas g.schemas = .ok g.graph
  views : ∃ ctx base, Environment.make g.schemas ctx g.graph = .ok base ∧
    ∀ name, base.IsView (g.environment name)

theorem ofDocument_prepared (document : Value) (config : Config) :
    Logged.Ends (fun _ => True) (fun g => g.Prepared ∧ g.config = config)
      (ofDocument document config) := by
  have hlift : ∀ {α : Type} {x : Except Fault α},
      Logged.Ends (fun _ => True) (fun v => x = .ok v) (liftM x : Logged α) :=
    Logged.Ends.lift fun _ => trivial
  have hliftFailure : ∀ {α : Type} {x : Except Failure α},
      Logged.Ends (fun _ => True) (fun v => x = .ok v) (liftM x : Logged α) :=
    Logged.Ends.liftFailure fun _ _ => trivial
  refine hliftFailure.bind fun ctx _ => hliftFailure.bind fun schemas _ => ?_
  refine hliftFailure.bind fun _ _ => hlift.bind fun graph hgraph => ?_
  refine (Logged.Ends.report _).bind fun _ _ => hlift.bind fun fields _ => ?_
  refine hlift.bind fun usage _ => announced_ends.bind fun base hbase => ?_
  refine announced_ends.bind fun requests hrequests => ?_
  refine announced_ends.bind fun responses hresponses => .pure ⟨⟨hgraph, ctx, base, hbase, ?_⟩, rfl⟩
  intro name
  unfold environment
  split
  · exact Or.inr ⟨_, hresponses⟩
  · exact Or.inr ⟨_, hrequests⟩

/-- A definition with the names of its schema, and with an enum only where enums are declared. -/
structure Defines (g : Generator) (d : Definition) : Prop where
  const : (g.environment d.name).constName d.name = .ok d.const
  type : (g.environment d.name).typeName d.name = .ok d.type
  declaresEnum : d.DeclaresEnum
  style : d.enumCode.isSome = true → g.config.enumStyle = .typescript

theorem define_defines (g : Generator) (caches : Caches) (name : String) (schema : Value) :
    Logged.Ends (fun _ => True) (fun r => g.Defines r.1) (g.define caches name schema) := by
  have hlift : ∀ {α : Type} {x : Except Fault α},
      Logged.Ends (fun _ => True) (fun v => x = .ok v) (liftM x : Logged α) :=
    Logged.Ends.lift fun _ => trivial
  refine (Logged.Ends.report _).bind fun _ _ => hlift.bind fun const hconst => ?_
  refine hlift.bind fun type htype => hlift.bind fun form _ => ?_
  split
  · refine Logged.Ends.bind (Q := g.Defines) ?_ fun _ hd => .pure hd
    refine hlift.bind fun fields _ => commentOf_ends.bind fun _ _ => .pure ⟨hconst, htype, ?_, ?_⟩
    · intro code hcode
      cases hstyle : g.config.enumStyle with
      | typescript =>
        simp only [EnumDeclaration.ofValues, hstyle, Option.mem_some_iff] at hcode
        exact ⟨_, hcode.symm⟩
      | zod => simp [EnumDeclaration.ofValues, hstyle] at hcode
    · intro hcode
      cases hstyle : g.config.enumStyle with
      | typescript => rfl
      | zod => simp [EnumDeclaration.ofValues, hstyle] at hcode
  · refine (Logged.Ends.report _).bind fun _ _ => ?_
    refine (Logged.Ends.liftFailure fun _ _ => trivial).bind fun r _ => ?_
    exact commentOf_ends.bind fun _ _ => .pure ⟨hconst, htype, nofun, nofun⟩

theorem defineAll_defines (g : Generator) : ∀ (schemas : Fields) (caches : Caches),
    Logged.Ends (fun _ => True) (fun ds => ∀ d ∈ ds, g.Defines d) (g.defineAll caches schemas)
  | [], _ => .pure (by simp)
  | (name, schema) :: rest, caches => by
    cases name with
    | text name =>
      refine (define_defines g caches name schema).bind fun r hd => ?_
      exact (defineAll_defines g rest r.2).bind fun ds hds => .pure (List.forall_mem_cons.mpr ⟨hd, hds⟩)
    | _ =>
      show Logged.Ends (fun _ => True) _ (g.defineAll caches rest)
      exact defineAll_defines g rest caches

/-- The definitions of a run, in the order of the graph. -/
structure Ran (g : Generator) (r : Generation) : Prop where
  order : r.order = g.graph.order
  defines : ∀ d ∈ r.definitions, g.Defines d

theorem run_ran (g : Generator) : Logged.Ends (fun _ => True) g.Ran g.run :=
  (defineAll_defines g g.schemas g.caches).bind fun _ hds => .pure ⟨rfl, hds⟩

theorem name_of_find? {r : Generation} {d : Definition} {name : String}
    (h : r.find? name = some d) : d ∈ r.definitions ∧ d.name = name :=
  ⟨List.mem_of_find?_eq_some h, by simpa using List.find?_some h⟩

theorem Ran.defines_of_ordered {r : Generation} (h : g.Ran r) {d : Definition}
    (hd : d ∈ r.ordered) : g.Defines d ∧ d.name ∈ g.graph.order ∧ r.find? d.name = some d := by
  obtain ⟨name, hname, hfind⟩ := List.mem_filterMap.mp hd
  obtain ⟨hmem, rfl⟩ := name_of_find? hfind
  exact ⟨h.defines d hmem, h.order ▸ hname, hfind⟩

/-- **The definitions of a run have constants and types of their own.** -/
theorem Ran.ownNames {r : Generation} (h : g.Ran r) (hprepared : g.Prepared)
    (hnames : g.schemas.names.Nodup) : r.OwnNames := by
  obtain ⟨ctx, base, hbase, hviews⟩ := hprepared.views
  obtain ⟨hlawful, htexts⟩ := NameTable.ofSchemas_lawful (Environment.names_of_make hbase)
  have hnamed : Reference.Named g.schemas (base.names.entries.map NameEntry.schema) := by
    have htexts' : g.schemas.names = (base.names.entries.map NameEntry.schema).map Scalar.text := by
      rw [← htexts, NameTable.schemaNames, List.map_map]
      rfl
    exact ⟨htexts', List.Nodup.of_map Scalar.text (htexts' ▸ hnames)⟩
  have horder := (Reference.Graph.describes_of_ok hnamed hprepared.graph).order_perm
  have hentry : ∀ d ∈ r.ordered, ∃ e ∈ base.names.entries,
      e.schema = d.name ∧ e.const = d.const ∧ e.type = d.type := by
    intro d hd
    obtain ⟨hdefines, hname, -⟩ := h.defines_of_ordered hd
    have hhas : g.schemas.has d.name = true := hnamed.has_iff.mpr (horder.mem_iff.mp hname)
    obtain ⟨e, he, hschema, hgives⟩ := Environment.exists_entry_of_view hbase hhas
    obtain ⟨hconst, htype⟩ := hgives _ (hviews d.name)
    rw [hdefines.const] at hconst
    rw [hdefines.type] at htype
    exact ⟨e, he, hschema, (Except.ok.inj hconst).symm, (Except.ok.inj htype).symm⟩
  have heq : ∀ d ∈ r.ordered, ∀ d' ∈ r.ordered, d.name = d'.name → d = d' := by
    intro d hd d' hd' hname
    have hfind := (h.defines_of_ordered hd).2.2
    rw [hname, (h.defines_of_ordered hd').2.2] at hfind
    exact (Option.some.inj hfind).symm
  have hordered : r.ordered.Nodup := by
    refine List.Nodup.filterMap (fun name name' d hd hd' => ?_) ?_
    · rw [← (name_of_find? hd).2, ← (name_of_find? hd').2]
    · rw [h.order]
      exact horder.nodup_iff.mpr hnamed.distinct
  refine ⟨fun d hd => ?_, hordered.map_on fun d hd d' hd' hconst => ?_,
    hordered.map_on fun d hd d' hd' htype => ?_⟩
  · obtain ⟨e, he, -, hconst, -⟩ := hentry d hd
    have hmem := List.mem_map_of_mem (f := NameEntry.const) he
    rw [hlawful.consts] at hmem
    obtain ⟨constBase, -, hend⟩ := List.mem_map.mp hmem
    exact ⟨constBase, hconst.symm.trans hend.symm⟩
  · obtain ⟨e, he, hschema, hconstOf, -⟩ := hentry d hd
    obtain ⟨e', he', hschema', hconstOf', -⟩ := hentry d' hd'
    have hsame := hlawful.eq_of_const he he' (hconstOf.trans (hconst.trans hconstOf'.symm))
    exact heq d hd d' hd' (hschema.symm.trans ((congrArg NameEntry.schema hsame).trans hschema'))
  · obtain ⟨e, he, hschema, -, htypeOf⟩ := hentry d hd
    obtain ⟨e', he', hschema', -, htypeOf'⟩ := hentry d' hd'
    have hsame := hlawful.eq_of_type he he' (htypeOf.trans (htype.trans htypeOf'.symm))
    exact heq d hd d' hd' (hschema.symm.trans ((congrArg NameEntry.schema hsame).trans hschema'))

/-- Where no enums are declared, there are none that could clash. -/
theorem Ran.declaringEnums_eq_nil {r : Generation} (h : g.Ran r)
    (hstyle : g.config.enumStyle = .zod) : r.declaringEnums = [] := by
  refine List.filter_eq_nil_iff.mpr fun d hd hcode => ?_
  have htypescript := (h.defines_of_ordered hd).1.style hcode
  rw [hstyle] at htypescript
  cases htypescript

/-- **The text of a module declares what the module exports**, block for block. -/
theorem Ran.render_declares {r : Generation} (h : g.Ran r) {config : Config} {command text : String}
    (htext : ModuleText.render config command r = .ok text) : ∃ blocks,
      text = Text.join "\n" (ModuleText.header config command r) ++ "\n\n" ++
        Text.join "\n\n" blocks ++ "\n" ∧
      r.DeclaredBy config blocks := by
  obtain ⟨blocks, hblocks, htext⟩ := Outcome.bind_eq_ok.mp htext
  cases htext
  refine ⟨blocks, rfl, ?_⟩
  have hall := (List.forall₂_and_left r.ordered blocks).mpr
    ⟨fun d hd => (h.defines_of_ordered hd).1, Outcome.forall₂_of_mapM hblocks⟩
  exact hall.imp fun d block hd => Definition.block_declares hd.1.declaresEnum hd.2

/--
**A module exports a name twice only if the names of enums clash.** The text of a module declares its
exports. No name of a value is exported twice unless the enums of two types have one name, which is
if one type is the other with `EnumOptions`; no name of a type is unless that is so, or the module
declares its types and one is called like an enum. In particular all exports have names of their own
where no enums are declared.
-/
theorem exports_nodup_iff {document : Value} {config : Config} {records : List LogRecord}
    (hg : (ofDocument document config).result = (.ok g, records)) (hnames : g.schemas.names.Nodup)
    {r : Generation} (hr : g.run.result.1 = .ok r) :
    (∀ command text, ModuleText.render config command r = .ok text → ∃ blocks,
      text = Text.join "\n" (ModuleText.header config command r) ++ "\n\n" ++
        Text.join "\n\n" blocks ++ "\n" ∧
      r.DeclaredBy config blocks) ∧
    ((r.valueNames config).Nodup ↔ ¬ r.EnumsMeet) ∧
    ((r.typeNames config).Nodup ↔
      ¬ r.EnumsMeet ∧ (config.separateTypes.isSet = false → ¬ r.EnumMeetsType)) ∧
    (config.enumStyle = .zod → (r.valueNames config).Nodup ∧ (r.typeNames config).Nodup) := by
  obtain ⟨hprepared, hconfig⟩ : g.Prepared ∧ g.config = config := by
    refine (ofDocument_prepared document config []).1 g ?_
    have hrun : (ofDocument document config).run [] = (.ok g, records) := hg
    rw [hrun]
  have hran : g.Ran r := (run_ran g []).1 r hr
  have hown := hran.ownNames hprepared hnames
  refine ⟨fun command text => hran.render_declares, hown.nodup_valueNames_iff,
    hown.nodup_typeNames_iff, fun hstyle => ?_⟩
  have hnone := hran.declaringEnums_eq_nil (hconfig ▸ hstyle)
  have hapart : ¬ r.EnumsMeet := by simp [Generation.EnumsMeet, hnone]
  have hapartTypes : ¬ r.EnumMeetsType := by simp [Generation.EnumMeetsType, hnone]
  exact ⟨hown.nodup_valueNames_iff.mpr hapart,
    hown.nodup_typeNames_iff.mpr ⟨hapart, fun _ => hapartTypes⟩⟩

/-- An enum, and another schema of any name. -/
def statusDocument (name : String) (schema : Value) : Value :=
  .object [(.text "components", .object [(.text "schemas", .object [
    (.text "Status", .object [(.text "enum", .list [.text "a"])]),
    (.text name, schema)])])]

/-- The configuration in which enums are declared. -/
def declaringConfig : Config := { enumStyle := .typescript }

theorem exports_nodup_iff_status :
    ∃ g records r,
      (ofDocument (statusDocument "Owner" (.object [(.text "type", .text "string")]))
        declaringConfig).result = (.ok g, records) ∧ g.schemas.names.Nodup ∧
      g.run.result.1 = .ok r ∧ r.enumNames = ["StatusEnum"] ∧
      r.typeNames declaringConfig = ["StatusEnum", "Status", "Owner"] ∧
      (r.typeNames declaringConfig).Nodup ∧ ¬ r.EnumsMeet ∧ ¬ r.EnumMeetsType := by
  obtain ⟨g, records, r, hg, hnames, hr, henums, htypes⟩ : ∃ g records r,
      (ofDocument (statusDocument "Owner" (.object [(.text "type", .text "string")]))
        declaringConfig).result = (.ok g, records) ∧ g.schemas.names.Nodup ∧
      g.run.result.1 = .ok r ∧ r.enumNames = ["StatusEnum"] ∧
      r.typeNames declaringConfig = ["StatusEnum", "Status", "Owner"] :=
    ⟨_, _, _, rfl, by decide +kernel, rfl, by decide +kernel, by decide +kernel⟩
  have hnodup : (r.typeNames declaringConfig).Nodup := by rw [htypes]; decide
  have hiff := (exports_nodup_iff hg hnames hr).2.2.1
  exact ⟨g, records, r, hg, hnames, hr, henums, htypes, hnodup, (hiff.mp hnodup).1,
    (hiff.mp hnodup).2 rfl⟩

/-- **Names can clash**: a type is called like an enum, and two enums are. -/
theorem not_nodup_exports :
    (∃ g records r,
      (ofDocument (statusDocument "StatusEnum" (.object [(.text "type", .text "string")]))
        declaringConfig).result = (.ok g, records) ∧ g.schemas.names.Nodup ∧
      g.run.result.1 = .ok r ∧ ¬ (r.typeNames declaringConfig).Nodup) ∧
    ∃ g records r,
      (ofDocument (statusDocument "StatusEnumOptions" (.object [(.text "enum", .list [.text "b"])]))
        declaringConfig).result = (.ok g, records) ∧ g.schemas.names.Nodup ∧
      g.run.result.1 = .ok r ∧ ¬ (r.valueNames declaringConfig).Nodup :=
  ⟨⟨_, _, _, rfl, by decide +kernel, rfl, by decide +kernel⟩,
    ⟨_, _, _, rfl, by decide +kernel, rfl, by decide +kernel⟩⟩

end Generator

end SchemaForge
