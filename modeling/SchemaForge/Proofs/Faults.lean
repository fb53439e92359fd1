import SchemaForge.Compile.Basic
import SchemaForge.Proofs.Outcome

/-!
# Faults of the steps of compilation

A fault inside a schema is reported as a failure of the schema, unless it is one of the two kinds that
nobody reports: a missing element, and a number beyond counting. None of the steps of compilation that
may fault does so in one of these ways, whatever value it is given. Each step is followed along its
text; what goes wrong in the end is always a use of a value that the value does not admit.
-/

namespace SchemaForge

/-- The faults that are reported as failures of the schema they are met in. -/
def Fault.Reported : Fault → Prop
  | .noElement => False
  | .tooLarge => False
  | _ => True

/-- A step that faults, if at all, in a way that is reported. -/
def Reports {α : Type} (x : Except Fault α) : Prop := ∀ f, x = .error f → f.Reported

/-! ## Rules -/

namespace Reports

variable {α β : Type} {x : Except Fault α}

theorem ok {a : α} : Reports (.ok a : Except Fault α) := nofun

theorem error {f : Fault} (h : f.Reported) : Reports (.error f : Except Fault α) := by
  intro f' hf
  cases hf
  exact h

/-- A sequence of steps reports its faults if each step does, whatever it is given. -/
theorem bind {f : α → Except Fault β} (h : Reports x) (hf : ∀ a, Reports (f a)) :
    Reports (x >>= f) := by
  cases x with
  | ok a => exact hf a
  | error e =>
    intro e' he
    cases he
    exact h e rfl

theorem map {f : α → β} (h : Reports x) : Reports (x.map f) := by
  cases x with
  | ok a => exact ok
  | error e => exact error (h e rfl)

theorem ite {c : Prop} [Decidable c] {y : Except Fault α} (h : Reports x) (h' : Reports y) :
    Reports (if c then x else y) := by
  split
  · exact h
  · exact h'

/-- What follows a choice follows both of its sides. -/
theorem iteBind {c : Prop} [Decidable c] {y : Except Fault α} {f : α → Except Fault β}
    (h : Reports x) (h' : Reports y) (hf : ∀ a, Reports (f a)) :
    Reports (if c then x >>= f else y >>= f) :=
  ite (h.bind hf) (h'.bind hf)

theorem mapM {f : α → Except Fault β} (h : ∀ a, Reports (f a)) : ∀ l : List α, Reports (l.mapM f)
  | [] => by
    rw [List.mapM_nil]
    exact ok
  | a :: l => by
    rw [List.mapM_cons]
    exact (h a).bind fun _ => (mapM h l).bind fun _ => ok

theorem foldlM {f : β → α → Except Fault β} (h : ∀ b a, Reports (f b a)) :
    ∀ (l : List α) (b : β), Reports (l.foldlM f b)
  | [], _ => ok
  | a :: l, b => by
    rw [List.foldlM_cons]
    exact (h b a).bind fun _ => foldlM h l _

/-- The loop of a filter, which gathers what it keeps in reverse. -/
theorem filterAuxM {f : α → Except Fault Bool} (h : ∀ a, Reports (f a)) :
    ∀ l acc : List α, Reports (l.filterAuxM f acc)
  | [], _ => ok
  | a :: l, acc => by
    rw [List.filterAuxM]
    exact (h a).bind fun _ => filterAuxM h l _

theorem filterM {f : α → Except Fault Bool} (h : ∀ a, Reports (f a)) (l : List α) :
    Reports (l.filterM f) :=
  (filterAuxM h l []).bind fun _ => ok

end Reports

/-! ## Values -/

namespace Value

variable (v : Value)

/-- Only lists, objects and texts can be walked over: by items, names and characters. -/
theorem walk_reports : Reports v.walk := by
  unfold walk
  split
  · exact .ok
  · exact .ok
  · exact .ok
  · exact .error trivial

/-- Null and what else is not set is walked over as if it were empty. -/
theorem walkIfSet_reports : Reports v.walkIfSet := .ite v.walk_reports .ok

/-- Only objects have fields. -/
theorem fields_reports : Reports v.fields := by
  unfold fields
  split
  · exact .ok
  · exact .error trivial

theorem fieldsIfSet_reports : Reports v.fieldsIfSet := .ite v.fields_reports .ok

/-- Lists and objects cannot be names of properties. -/
theorem asName_reports : Reports v.asName := by
  unfold asName
  split
  · exact .ok
  · exact .error trivial

theorem asText_reports : Reports v.asText := by
  unfold asText
  split
  · exact .ok
  · exact .error trivial

/-- Only objects, lists and texts can be asked what they hold. -/
theorem holds_reports (part : String) : Reports (v.holds part) := by
  unfold holds
  split
  · exact .ok
  · exact .ok
  · exact .ok
  · exact .error trivial

/-- An entry may be missing, which is reported, unlike an element that is missing from a list. -/
theorem entry_reports (name : String) : Reports (v.entry name) := by
  unfold entry
  split
  · split
    · exact .ok
    · exact .error trivial
  · exact .error trivial

end Value

/-! ## Texts of values -/

namespace Json

variable {style : Style}

/-- Days and moments are written in some styles only. -/
theorem writeScalar_reports (s : Scalar) : Reports (writeScalar style s) := by
  cases s with
  | date d => exact .ite .ok (.error trivial)
  | moment m => exact .ite .ok (.error trivial)
  | _ => exact .ok

/-- A day or a moment cannot be the name of a field in a text. -/
theorem nameText_reports (s : Scalar) : Reports (nameText s) := by
  cases s with
  | date d => exact .error trivial
  | moment m => exact .error trivial
  | _ => exact .ok

/-- Names of different kinds cannot be sorted. -/
theorem sortFields_reports (fields : List (Scalar × String)) : Reports (sortFields fields) :=
  .ite .ok (.error trivial)

theorem writeField_reports (field : Scalar × String) : Reports (writeField style field) :=
  (nameText_reports field.1).bind fun _ => .ok

mutual

/-- **Every value is written, or fails to be in a way that is reported.** -/
theorem write_reports : ∀ v : Value, Reports (write style v)
  | .scalar s => by
    rw [write]
    exact writeScalar_reports s
  | .list items => by
    rw [write]
    exact (writeAll_reports items).bind fun _ => .ok
  | .object fields => by
    rw [write]
    refine (writeValues_reports fields).bind fun parts => ?_
    refine .iteBind (sortFields_reports parts) .ok fun parts => ?_
    exact (Reports.mapM writeField_reports parts).bind fun _ => .ok

theorem writeAll_reports : ∀ vs : List Value, Reports (writeAll style vs)
  | [] => by
    rw [writeAll]
    exact .ok
  | v :: vs => by
    rw [writeAll]
    exact (write_reports v).bind fun _ => (writeAll_reports vs).bind fun _ => .ok

theorem writeValues_reports : ∀ fields : List (Scalar × Value), Reports (writeValues style fields)
  | [] => by
    rw [writeValues]
    exact .ok
  | (k, v) :: fields => by
    rw [writeValues]
    exact (write_reports v).bind fun _ => (writeValues_reports fields).bind fun _ => .ok

end

theorem writeNames_reports (names : List Scalar) : Reports (writeNames style names) :=
  write_reports _

end Json

namespace Literal

/-- A name that is no text has no key. -/
theorem keyOf_reports (name : Scalar) : Reports (keyOf name) := by
  unfold keyOf
  split
  · exact .ok
  · exact .error trivial

theorem accessOf_reports (target : String) (name : Scalar) : Reports (accessOf target name) := by
  unfold accessOf
  split
  · exact .ok
  · exact .error trivial

/-- A pattern that is no text is walked over, as if it were a list of texts. -/
theorem regexOf_reports (pattern : Value) : Reports (regexOf pattern) := by
  unfold regexOf
  split
  · exact .ok
  · exact (Value.walk_reports _).bind fun items =>
      (Reports.mapM Value.asText_reports items).bind fun _ => .ok

end Literal

/-! ## Names -/

namespace Naming

/-- A reference is split at its slashes, so it has to be a text. -/
theorem targetOf_reports (v : Value) : Reports (targetOf v) := by
  unfold targetOf
  split
  · exact .ok
  · exact .error trivial

/-- A prefix or suffix that is set has to be one that can stand in a name. -/
theorem affix_reports (v : Value) : Reports (affix v) := by
  unfold affix
  split
  · split
    · exact .ok
    · exact .error trivial
    · exact .error trivial
  · exact .ok

theorem camelCase_reports (pre post : Value) (name : String) : Reports (camelCase pre post name) :=
  (affix_reports pre).bind fun _ => (affix_reports post).bind fun _ => .ok

/-- Patterns are tried in turn, up to the first that matches or is no text. -/
theorem stripValues_reports (text : List Char) : ∀ ps : List Value, Reports (stripValues ps text)
  | [] => .ok
  | p :: ps => by
    unfold stripValues
    split
    · exact .ok
    · rename_i p' rest text' heq
      cases heq
      split
      · exact .ok
      · exact stripValues_reports _ ps
    · exact .error trivial

theorem strip_reports (option : StripOption) (name : String) : Reports (strip option name) :=
  (stripValues_reports _ _).map

end Naming

namespace Environment

variable (env : Environment) (name : String)

/-- A reference without a definition is resolved to nothing; that is no fault. -/
theorem resolve?_reports (ref : Value) : Reports (env.resolve? ref) := by
  refine (Naming.targetOf_reports ref).bind fun name => ?_
  split
  · exact .ok
  · exact .ok

/-- A name that is not in the table is made from the options, which may be of the wrong kind. -/
theorem constName_reports : Reports (env.constName name) := by
  unfold constName NameTable.constName
  split
  · exact .ok
  · refine (Naming.strip_reports _ _).bind fun stripped => ?_
    exact (Naming.camelCase_reports _ _ _).bind fun _ => .ok

theorem typeName_reports : Reports (env.typeName name) := by
  unfold typeName NameTable.typeName
  split
  · exact .ok
  · exact (Naming.strip_reports _ _).bind fun _ => .ok

end Environment

/-- Following aliases ends with the name that it has come to, also when the rounds are used up. -/
theorem Reference.followAlias_reports (schemas : Fields) : ∀ (fuel : Nat) (seen : List String)
    (name : String), Reports (followAlias schemas fuel seen name)
  | 0, _, _ => .ok
  | fuel + 1, seen, name => by
    unfold followAlias
    split
    · exact .ok
    · refine (Naming.targetOf_reports _).bind fun target => .ite .ok ?_
      exact followAlias_reports schemas fuel _ _

/-! ## Visible fields -/

namespace Visibility

variable (v : Visibility)

/-- A required entry has to be a name. -/
theorem staysRequired_reports (properties kept : Fields) (entry : Value) :
    Reports (staysRequired properties kept entry) :=
  entry.asName_reports.bind fun _ => .ok

theorem requiredLeft_reports (properties kept : Fields) (required : Value) :
    Reports (requiredLeft properties kept required) :=
  required.walkIfSet_reports.bind fun entries =>
    .filterM (staysRequired_reports properties kept) entries

/-- The required entries are looked at only where properties were declared. -/
theorem adjustRequired_reports (before after : Fields) : Reports (adjustRequired before after) := by
  unfold adjustRequired
  split
  · exact (requiredLeft_reports _ _ _).bind fun _ => .ite .ok .ok
  · exact .ok

mutual

/-- **Filtering goes through a schema to any depth, and reports what it meets.** -/
theorem filterSchema_reports : ∀ schema : Value, Reports (filterSchema v schema)
  | .scalar _ => by
    rw [filterSchema]
    · exact .ok
    · nofun
  | .list _ => by
    rw [filterSchema]
    · exact .ok
    · nofun
  | .object fields => by
    rw [filterSchema]
    refine .ite .ok ((filterFields_reports fields).bind fun filtered => ?_)
    exact (adjustRequired_reports fields filtered).bind fun _ => .ok

/-- Only the fields that may hold properties, items or branches are gone into. -/
theorem filterFields_reports : ∀ fields : List (Scalar × Value), Reports (filterFields v fields)
  | [] => by
    rw [filterFields]
    exact .ok
  | (name, value) :: rest => by
    have hrest : ∀ value : Value, Reports (filterFields v rest >>= fun rest =>
        pure ((name, value) :: rest)) :=
      fun value => (filterFields_reports rest).bind fun _ => .ok
    unfold filterFields
    dsimp only
    split
    · exact (filterProperties_reports value).bind hrest
    · exact (filterSchema_reports value).bind hrest
    · exact (filterBranches_reports value).bind hrest
    · exact (filterBranches_reports value).bind hrest
    · exact (filterBranches_reports value).bind hrest
    · exact hrest value

theorem filterProperties_reports : ∀ properties : Value, Reports (filterProperties v properties)
  | .scalar _ => by
    rw [filterProperties]
    · exact .ok
    · nofun
  | .list _ => by
    rw [filterProperties]
    · exact .ok
    · nofun
  | .object properties => by
    rw [filterProperties]
    exact (filterVisible_reports properties).bind fun _ => .ok

theorem filterVisible_reports : ∀ properties : List (Scalar × Value),
    Reports (filterVisible v properties)
  | [] => by
    rw [filterVisible]
    exact .ok
  | (_, definition) :: rest => by
    rw [filterVisible]
    refine .ite ?_ (filterVisible_reports rest)
    exact (filterSchema_reports definition).bind fun _ =>
      (filterVisible_reports rest).bind fun _ => .ok

theorem filterBranches_reports : ∀ branches : Value, Reports (filterBranches v branches)
  | .scalar _ => by
    rw [filterBranches]
    · exact .ok
    · nofun
  | .object _ => by
    rw [filterBranches]
    · exact .ok
    · nofun
  | .list branches => by
    rw [filterBranches]
    exact (filterAll_reports branches).bind fun _ => .ok

theorem filterAll_reports : ∀ branches : List Value, Reports (filterAll v branches)
  | [] => by
    rw [filterAll]
    exact .ok
  | branch :: branches => by
    rw [filterAll]
    exact (filterSchema_reports branch).bind fun _ => (filterAll_reports branches).bind fun _ => .ok

end

/-- Nothing is looked at where everything is visible. -/
theorem filter_reports (schema : Value) : Reports (v.filter schema) := by
  unfold filter
  split
  · exact .ok
  · exact filterSchema_reports v schema

end Visibility

/-! ## Forms -/

namespace Schema

/-- The branches of a union and its discriminator are looked at before it has a form. -/
theorem formOfUnion_reports (schema : Fields) (kind : UnionKind) (branches : Value) :
    Reports (formOfUnion schema kind branches) :=
  branches.walk_reports.bind fun _ => (Value.fieldsIfSet_reports _).bind fun _ => .ok

/-- **Every schema has a form, or a fault that is reported**: a reference that is no text, or
branches or values that cannot be walked over. -/
theorem classify_reports (schema : Fields) : Reports (classify schema) := by
  unfold classify
  refine .ite .ok ?_
  split
  · split
    · exact .ok
    · exact .error trivial
  split
  · exact .ok
  split
  · exact (Value.walk_reports _).map
  split
  · exact (Value.walk_reports _).map
  split
  · exact formOfUnion_reports _ _ _
  split
  · exact formOfUnion_reports _ _ _
  split
  · exact .ok
  · exact .ok

end Schema

namespace Compile

variable (env : Environment) (schemas schema : Fields)

theorem visibleFields_reports : Reports (visibleFields env schema) :=
  .iteBind (Visibility.filter_reports _ _) .ok fun filtered => filtered.fields_reports

/-! ## Strings -/

/-- A format is looked up by its text; lists and objects cannot be looked up. -/
theorem ruleOf_reports (table : Formats.Table) (v : Value) : Reports (table.ruleOf v) := by
  unfold Formats.Table.ruleOf
  split
  · exact .ok
  · exact .ok
  · exact .error trivial

theorem formatBase_reports : Reports (formatBase env schema) := by
  refine .ite (.ite .ok ?_) .ok
  refine (ruleOf_reports _ _).bind fun rule => ?_
  split
  · exact .ok
  · exact .ok

theorem encodingBase_reports (encoding : Value) : Reports (encodingBase encoding) := by
  refine (ruleOf_reports _ _).bind fun rule => ?_
  split
  · exact .ok
  · exact .ok

/-! ## Objects -/

theorem requiredNames_reports : Reports (requiredNames schema) :=
  (Value.walkIfSet_reports _).bind fun entries => .mapM Value.asName_reports entries

/-- A required name that is not declared is read by its access, which only texts have. -/
theorem undeclaredRequired_reports (e : Expression) : Reports (undeclaredRequired schema e) := by
  refine (Value.fieldsIfSet_reports _).bind fun declared => ?_
  refine (requiredNames_reports schema).bind fun required => .ite .ok ?_
  exact (Reports.mapM (Literal.accessOf_reports "obj") _).bind fun _ => .ok

/-- Of the rules for names, only the pattern is looked at as a value. -/
theorem nameChecks_reports (rules : Fields) : Reports (nameChecks rules) := by
  refine .ite .ok ?_
  exact (Literal.regexOf_reports _).bind fun _ => .ok

/-- Rules for names that are not set add nothing. -/
theorem propertyNames_reports (e : Expression) : Reports (propertyNames schema e) := by
  unfold propertyNames
  split
  · exact (nameChecks_reports _).bind fun _ => .ite .ok .ok
  · exact .ok

theorem requiredCheck_reports (property : Scalar) (required : List Value) :
    Reports (requiredCheck property required) :=
  (Literal.accessOf_reports _ _).bind fun _ => (Json.write_reports _).bind fun _ =>
    (Json.writeNames_reports _).bind fun _ => .ok

/-- Each property lists the names that it requires. -/
theorem dependentRequired_reports : Reports (dependentRequired schema) := by
  unfold dependentRequired
  split
  · refine (Reports.mapM (fun f : Scalar × Value => ?_) _).bind fun _ => .ite .ok .ok
    exact f.2.walk_reports.bind fun _ => requiredCheck_reports _ _
  · exact .ok

/-! ## Branches -/

/-- A branch is asked for its reference, which has to be a text if it is there. -/
theorem branchRef?_reports (branch : Value) : Reports (branchRef? branch) := by
  refine (branch.holds_reports _).bind fun isRef => .ite ?_ .ok
  refine (branch.entry_reports _).bind fun ref => ?_
  split
  · exact .ok
  · exact .error trivial

/-- **The properties of a branch are gathered through its references and members to any depth.** A
reference that was met before, or that has no definition, ends the way without a fault. -/
theorem branchProperties_reports : ∀ (fuel : Nat) (seen : List String) (branch : Value),
    Reports (branchProperties schemas fuel seen branch)
  | 0, _, _ => .ok
  | fuel + 1, seen, branch => by
    refine (branchRef?_reports branch).bind fun ref => ?_
    split
    · split
      · exact .ok
      · exact .ite .ok (branchProperties_reports fuel _ _)
    · refine branch.fields_reports.bind fun fields => ?_
      refine (Value.walkIfSet_reports _).bind fun members => ?_
      refine (Reports.foldlM (fun found member => ?_) members []).bind fun inherited => ?_
      · exact (branchProperties_reports fuel seen member).bind fun _ => .ok
      · exact (Value.fieldsIfSet_reports _).bind fun _ => .ok

/-- The required names of a branch are gathered in the same way. -/
theorem branchRequired_reports : ∀ (fuel : Nat) (seen : List String) (branch : Value),
    Reports (branchRequired schemas fuel seen branch)
  | 0, _, _ => .ok
  | fuel + 1, seen, branch => by
    refine (branchRef?_reports branch).bind fun ref => ?_
    split
    · split
      · exact .ok
      · exact .ite .ok (branchRequired_reports fuel _ _)
    · refine branch.fields_reports.bind fun fields => ?_
      refine (Value.walkIfSet_reports _).bind fun entries => ?_
      refine (Reports.mapM Value.asName_reports entries).bind fun own => ?_
      refine (Value.walkIfSet_reports _).bind fun members => ?_
      refine Reports.foldlM (fun found member => ?_) members own
      exact (branchRequired_reports fuel seen member).bind fun _ => .ok

/-- A branch is looked at as an object, or its target is. -/
theorem isObjectLike_reports (branch : Value) : Reports (isObjectLike schemas branch) := by
  refine (branchRef?_reports branch).bind fun ref => ?_
  split
  · split
    · exact .ok
    · exact (Value.fields_reports _).bind fun _ => .ok
  · exact branch.fields_reports.bind fun _ => .ok

theorem allObjectLike_reports : ∀ branches : List Value, Reports (allObjectLike schemas branches)
  | [] => .ok
  | branch :: rest =>
    (isObjectLike_reports schemas branch).bind fun _ => .ite (allObjectLike_reports rest) .ok

/-! ## Conflicts -/

theorem branchSource_reports (branch : Value) : Reports (branchSource branch) := by
  refine (branchRef?_reports branch).bind fun ref => ?_
  split
  · exact .ok
  · exact .ok

/-- Scanning compares definitions by their canonical texts, so each has to be written. -/
theorem scanProperty_reports (source : String) (scan : Scan) (losing : List Scalar) (name : Scalar)
    (definition : Value) : Reports (scanProperty source scan losing name definition) := by
  refine (Json.write_reports definition).bind fun canonical => ?_
  split
  · exact .ok
  · exact .ite .ok .ok

theorem scanBranch_reports (scan : Scan) (branch : Value) :
    Reports (scanBranch schemas scan branch) := by
  refine (branchSource_reports branch).bind fun source => ?_
  refine (branchProperties_reports schemas _ _ branch).bind fun properties => ?_
  exact (Reports.foldlM (fun acc f => scanProperty_reports _ _ _ _ _) properties _).bind fun _ => .ok

/-- **The scan for conflicts reports what it meets.** -/
theorem scanBranches_reports (branches : List Value) : Reports (scanBranches schemas branches) :=
  .foldlM (scanBranch_reports schemas) branches {}

/-- Names that are left out are written as keys. -/
theorem omitting_reports (names : List Scalar) (e : Expression) : Reports (omitting names e) := by
  refine .ite .ok (Reports.bind ?_ fun _ => .ok)
  exact (Reports.mapM Literal.keyOf_reports names).bind fun _ => .ok

/-- A branch that loses properties loses their required entries too, if it has any. -/
theorem withoutProperties_reports (names : List Scalar) (branch : Fields) :
    Reports (withoutProperties names branch) := by
  refine (Value.fieldsIfSet_reports _).bind fun properties => ?_
  split
  · exact .ok
  · exact (Value.walk_reports _).bind fun _ => .ok

/-- References and compositions keep all of their properties. -/
theorem reduceBranch_reports (omitted : List Scalar) (branch : Value) :
    Reports (reduceBranch omitted branch) := by
  unfold reduceBranch
  split
  · exact .ite .ok ((withoutProperties_reports _ _).bind fun _ => .ok)
  · exact .ok

/-! ## Unions -/

theorem refMatches_reports (ref : String) (target : Value) : Reports (refMatches ref target) := by
  unfold refMatches
  split
  · exact .ok
  · exact .error trivial

/-- The branches are searched in order, so those behind the first match are not looked at. -/
theorem matchingBranch_reports (target : Value) : ∀ (branches : List Value) (position : Nat),
    Reports (matchingBranch target position branches)
  | [], _ => .ok
  | branch :: rest, position => by
    refine branch.fields_reports.bind fun fields => ?_
    split
    · refine (refMatches_reports _ _).bind fun found => ?_
      exact .ite .ok (matchingBranch_reports target rest _)
    · exact matchingBranch_reports target rest _

theorem orderTarget_reports (branches : List Value) (ordered : Ordered) (target : Value) :
    Reports (orderTarget branches ordered target) :=
  (matchingBranch_reports target branches 0).bind fun _ => .ite .ok .ok

/-- **Putting branches in the order of a mapping reports what it meets.** -/
theorem orderByMapping_reports (mapping : Value) (branches : List Value) :
    Reports (orderByMapping mapping branches) := by
  refine mapping.fields_reports.bind fun targets => ?_
  exact (Reports.foldlM (orderTarget_reports branches) _ []).bind fun _ => .ok

/-- The search ends at the first branch that does not require the property. -/
theorem requiredEverywhere_reports (property : Value) : ∀ branches : List Value,
    Reports (requiredEverywhere schemas property branches)
  | [] => .ok
  | branch :: rest =>
    (branchRequired_reports schemas _ _ branch).bind fun _ => property.asName_reports.bind fun _ =>
      .ite (requiredEverywhere_reports property rest) .ok

/-! ## Evaluated names -/

/-- Evaluated names are looked for in the branches and one reference deep. -/
theorem branchNames_reports (keyword : String) : Reports (branchNames env schema keyword) := by
  refine (Value.walkIfSet_reports _).bind fun branches => ?_
  refine (Reports.mapM (fun branch => ?_) branches).bind fun _ => .ok
  split
  · have hnames : ∀ target : Value, Reports (do
        let target ← target.fieldsIfSet
        let properties ← (target.value "properties").fieldsIfSet
        return properties.names) :=
      fun target => target.fieldsIfSet_reports.bind fun _ =>
        (Value.fieldsIfSet_reports _).bind fun _ => .ok
    dsimp only
    split
    · exact (env.resolve?_reports _).bind fun _ => hnames _
    · exact hnames _
  · exact .ok

/-- The names of the schema itself come first, then those of its branches. -/
theorem evaluatedNames_reports : Reports (evaluatedNames env schema) :=
  (Value.fieldsIfSet_reports _).bind fun _ =>
    (Reports.mapM (branchNames_reports env schema) _).bind fun _ => .ok

end Compile

end SchemaForge
