import SchemaForge.Compile.Conditions
import SchemaForge.Proofs.Compile.Onward
import SchemaForge.Proofs.Expression.Script

/-!
# The messages about properties that others require

That one property asks for others is checked by a program text that holds the name of the property
four times: to read it, in the message, and in two JSON texts. Everywhere but in the message the name
is quoted, or it has the form of an identifier. In the message, a template, it stands as it is, so the
text reads as it should if the name is plain, and only then.
-/

namespace SchemaForge.Compile

open Text Script

/-! ## One check -/

/-- A check up to the name in its message. -/
def beforeName (access names : String) : String :=
  "if (" ++ access ++ " !== undefined) \x7b const missing = " ++ names ++
    ".filter((dep) => obj[dep] === undefined); if (missing.length > 0) \x7b " ++
    "ctx.addIssue(\x7b code: \"custom\", message: `When '"

/-- A check from the name in its message on. -/
def afterName (place : String) : String :=
  "' is present, $\x7bmissing.join(\", \")\x7d must also be present`, path: " ++ place ++
    " \x7d); \x7d \x7d"

/-- A list of texts, as JSON. -/
def listText (names : List String) : String :=
  "[" ++ join ", " (names.map (Json.quote true)) ++ "]"

/-- The check that the presence of a property asks for others. -/
def check (e : String × List String) : String :=
  beforeName (Literal.access "obj" e.1) (listText e.2) ++ e.1 ++ afterName (listText [e.1])

theorem write_texts (names : List String) :
    Json.write Json.ascii (.list (names.map Value.text)) = .ok (listText names) := by
  have hall : Json.writeAll Json.ascii (names.map Value.text) =
      .ok (names.map (Json.quote true)) := by
    induction names with
    | nil => rfl
    | cons name names ih =>
      rw [List.map_cons, Json.writeAll, ih]
      rfl
  rw [Json.write, hall]
  rfl

/-- The check of a name is written from the name and from what it asks for. -/
theorem requiredCheck_text (e : String × List String) :
    requiredCheck (.text e.1) (e.2.map Value.text) = .ok (check e) := by
  have hplace : Json.writeNames Json.ascii [.text e.1] = .ok (listText [e.1]) := write_texts [e.1]
  have hdisplay : (Scalar.text e.1).display = e.1 := rfl
  unfold requiredCheck
  simp only [write_texts, hplace, Literal.accessOf, Outcome.ok_bind, pure, Except.pure, hdisplay]
  unfold check beforeName afterName
  simp only [String.append_assoc]

/-- A list of quoted names leaves the reader where it was. -/
theorem neutral_listText (names : List String) : Neutral (listText names).toList := by
  have hopen : Neutral "[".toList := neutral_of_plain (by decide)
  have hclose : Neutral "]".toList := neutral_of_plain (by decide)
  have hcomma : Neutral ", ".toList := neutral_of_plain (by decide)
  rw [listText, String.toList_append, String.toList_append]
  refine (hopen.append (neutral_join hcomma fun p hp => ?_)).append hclose
  obtain ⟨name, -, rfl⟩ := List.mem_map.mp hp
  exact neutral_quote true name

/-- Inside of a refinement. -/
def inside : State := ⟨.code, [.brace]⟩

/-- In the message of a check. -/
def inMessage : State := ⟨.template, [.brace, .brace, .brace, .brace]⟩

/-- In front of the name a message is opened. -/
theorem scan_beforeName {access names : String} (haccess : Neutral access.toList)
    (hnames : Neutral names.toList) : scan inside (beforeName access names).toList =
      some (inMessage, .opening :: "When '".toList.map .char) := by
  have hif : scan inside "if (".toList = some (inside, []) := by decide
  have hread : scan inside access.toList = some (inside, []) := haccess _
  have hmissing : scan inside " !== undefined) \x7b const missing = ".toList =
      some (⟨.code, [.brace, .brace]⟩, []) := by decide
  have hfilter : scan ⟨.code, [.brace, .brace]⟩
      ".filter((dep) => obj[dep] === undefined); if (missing.length > 0) \x7b ".toList =
        some (⟨.code, [.brace, .brace, .brace]⟩, []) := by decide +kernel
  have hissue : scan ⟨.code, [.brace, .brace, .brace]⟩
      "ctx.addIssue(\x7b code: \"custom\", message: `When '".toList =
        some (inMessage, .opening :: "When '".toList.map .char) := by decide +kernel
  unfold beforeName
  simp only [String.toList_append, List.append_assoc]
  rewrite [scan_silent hif, scan_silent hread, scan_silent hmissing, scan_silent (hnames _),
    scan_silent hfilter]
  exact hissue

/-- Behind it the message goes on with what is missing, and ends. -/
theorem scan_afterName {place : String} (hplace : Neutral place.toList) :
    scan inMessage (afterName place).toList = some (inside,
      "' is present, ".toList.map .char ++ [.hole, .resume] ++
        " must also be present".toList.map .char ++ [.closing]) := by
  have hmessage : scan inMessage
      "' is present, $\x7bmissing.join(\", \")\x7d must also be present`, path: ".toList =
        some (⟨.code, inMessage.stack⟩, "' is present, ".toList.map .char ++ [.hole, .resume] ++
          " must also be present".toList.map .char ++ [.closing]) := by decide +kernel
  have hend : scan ⟨.code, inMessage.stack⟩ " \x7d); \x7d \x7d".toList = some (inside, []) := by
    decide
  have hplaced : scan ⟨.code, inMessage.stack⟩ (place.toList ++ " \x7d); \x7d \x7d".toList) =
      some (inside, []) := by rw [scan_silent (hplace _), hend]
  have hall := scan_append_some hmessage hplaced
  rewrite [List.append_nil] at hall
  unfold afterName
  simp only [String.toList_append, List.append_assoc] at hall ⊢
  exact hall

theorem exists_afterName (place : String) : ∃ tail, (afterName place).toList = '\x27' :: tail := by
  have hhead :
      "' is present, $\x7bmissing.join(\", \")\x7d must also be present`, path: ".toList.head? =
        some '\x27' := by decide +kernel
  refine List.head?_eq_some_iff.mp ?_
  unfold afterName
  simp only [String.toList_append, List.head?_append]
  rewrite [hhead]
  rfl

/-- What is read of the message about a property: a template with the name as literal text. -/
def message (name : String) : List Event :=
  .opening :: ("When '".toList.map .char ++ (name.toList.map .char ++
    ("' is present, ".toList.map .char ++ [.hole, .resume] ++
      " must also be present".toList.map .char ++ [.closing])))

variable {u : State} {fs : List Event}

/-- **A check reads as its message if the name is plain, and only then.** -/
theorem scan_check_iff (e : String × List String) {rest : List Char} :
    scan inside ((check e).toList ++ rest) = some (u, message e.1 ++ fs) ↔
      Plain e.1.toList ∧ scan inside rest = some (u, fs) := by
  have hobj : Neutral "obj".toList := neutral_of_plain (by decide)
  have hbefore := scan_beforeName (neutral_access hobj e.1) (neutral_listText e.2)
  have hafter := scan_afterName (neutral_listText [e.1])
  obtain ⟨tail, htail⟩ := exists_afterName (listText [e.1])
  have htext : (check e).toList ++ rest =
      (beforeName (Literal.access "obj" e.1) (listText e.2)).toList ++
        (e.1.toList ++ ((afterName (listText [e.1])).toList ++ rest)) := by
    simp only [check, String.toList_append, List.append_assoc]
  rw [htext, message, List.cons_append, List.append_assoc, ← List.cons_append]
  -- before the name and after it the reading is settled, so all depends on the name in its template
  refine (scan_append_iff hbefore).trans ?_
  rw [htail, List.cons_append, List.append_assoc]
  refine (scan_text_iff (by decide)).trans (and_congr_right fun _ => ?_)
  rw [← List.cons_append, ← htail]
  exact scan_append_iff hafter

/-- **Checks one after another read as their messages if all names are plain, and only then.** -/
theorem scan_checks_iff {entries : List (String × List String)} {rest : List Char} :
    scan inside ((join " " (entries.map check)).toList ++ rest) =
        some (u, entries.flatMap (fun e => message e.1) ++ fs) ↔
      (∀ e ∈ entries, Plain e.1.toList) ∧ scan inside rest = some (u, fs) := by
  rw [join, String.toList_intercalate]
  induction entries with
  | nil => exact (and_iff_right (List.forall_mem_nil _)).symm
  | cons e entries ih =>
    have hblank : scan inside " ".toList = some (inside, []) := by decide
    rw [List.forall_mem_cons, and_assoc, ← ih, List.flatMap_cons, List.append_assoc]
    cases entries with
    | nil => simpa using scan_check_iff e
    | cons next entries =>
      rw [List.map_cons, List.map_cons, List.map_cons, List.map_cons, List.intercalate_cons_cons,
        List.append_assoc, List.append_assoc]
      refine (scan_check_iff e).trans ?_
      rw [scan_silent hblank]

/-! ## Refinements -/

/-- A refinement that makes some checks. -/
def refinement (entries : List (String × List String)) : Modifier :=
  superRefine [.text (join " " (entries.map check))]

/-- The text of a refinement that makes some checks. -/
def refinementText (entries : List (String × List String)) : String :=
  ".superRefine(" ++ ("(obj, ctx) => \x7b " ++ join " " (entries.map check) ++ " \x7d") ++ ")"

/-- A rule is printed by itself, whatever comes after it. -/
theorem printAll_refinement {level : Nat} {modifiers : List Modifier} {texts : List String}
    (h : Modifier.printAll level modifiers = .ok texts) (entries : List (String × List String)) :
    Modifier.printAll level (refinement entries :: modifiers) =
      .ok (refinementText entries :: texts) := by
  unfold refinement refinementText
  generalize join " " (entries.map check) = checks
  have hjoin : join "" ["(obj, ctx) => \x7b ", checks, " \x7d"] =
      "(obj, ctx) => \x7b " ++ checks ++ " \x7d" := by
    simp [join, ← String.toList_inj]
  have hargs : Node.printAll level
      [.code ([.text "(obj, ctx) => \x7b "] ++ [.text checks] ++ [.text " \x7d"])] =
        .ok ["(obj, ctx) => \x7b " ++ checks ++ " \x7d"] := by
    rw [← hjoin]
    rfl
  have hcall : "." ++ "superRefine" ++ "(" = ".superRefine(" := by decide
  rewrite [superRefine, Modifier.printAll, h, hargs, ← hcall]
  simp only [Outcome.ok_bind, join, String.intercalate_singleton]
  rfl

theorem printAll_refinements (level : Nat) (groups : List (List (String × List String))) :
    Modifier.printAll level (groups.map refinement) = .ok (groups.map refinementText) := by
  induction groups with
  | nil => rfl
  | cons entries groups ih => exact printAll_refinement ih entries

/-- **One rule is read as its messages if every name in it is plain.** -/
theorem scan_refinement_iff {entries : List (String × List String)} {rest : List Char} :
    scan ⟨.code, []⟩ ((refinementText entries).toList ++ rest) =
        some (u, entries.flatMap (fun e => message e.1) ++ fs) ↔
      (∀ e ∈ entries, Plain e.1.toList) ∧ scan ⟨.code, []⟩ rest = some (u, fs) := by
  have hcall : scan ⟨.code, []⟩ ".superRefine(".toList = some (⟨.code, []⟩, []) := by decide
  have hopen : scan ⟨.code, []⟩ "(obj, ctx) => \x7b ".toList = some (inside, []) := by decide
  have hclose : scan inside " \x7d".toList = some (⟨.code, []⟩, []) := by decide
  have hend : scan ⟨.code, []⟩ ")".toList = some (⟨.code, []⟩, []) := by decide
  unfold refinementText
  simp only [String.toList_append, List.append_assoc]
  rewrite [scan_silent hcall, scan_silent hopen]
  refine scan_checks_iff.trans (and_congr_right fun _ => ?_)
  rewrite [scan_silent hclose, scan_silent hend]
  rfl

/-- **The same for rules one after another.** -/
theorem scan_refinements_iff {groups : List (List (String × List String))} {rest : List Char} :
    scan ⟨.code, []⟩ ((groups.map refinementText).flatMap String.toList ++ rest) =
        some (u, groups.flatten.flatMap (fun e => message e.1) ++ fs) ↔
      (∀ e ∈ groups.flatten, Plain e.1.toList) ∧ scan ⟨.code, []⟩ rest = some (u, fs) := by
  induction groups with
  | nil => exact (and_iff_right (List.forall_mem_nil _)).symm
  | cons entries groups ih =>
    rw [List.flatten_cons, List.forall_mem_append, and_assoc, ← ih, List.flatMap_append,
      List.map_cons, List.flatMap_cons, List.append_assoc, List.append_assoc]
    exact scan_refinement_iff

/-- Modifiers whose printed text reads as the messages about some properties and as no other template,
with all literals closed. -/
def Speaks (level : Nat) (modifiers : List Modifier) (names : List String) : Prop :=
  ∃ texts, Modifier.printAll level modifiers = .ok texts ∧
    read (texts.flatMap String.toList) = some (names.flatMap message)

theorem speaks_iff {level : Nat} {groups : List (List (String × List String))} :
    Speaks level (groups.map refinement) (groups.flatten.map (·.1)) ↔
      ∀ e ∈ groups.flatten, Plain e.1.toList := by
  have hread : read ((groups.map refinementText).flatMap String.toList) =
      some ((groups.flatten.map (·.1)).flatMap message) ↔
        ∀ e ∈ groups.flatten, Plain e.1.toList := by
    have hend : scan ⟨.code, []⟩ [] = some (⟨.code, []⟩, []) := rfl
    have hnames : (groups.flatten.map (·.1)).flatMap message =
        groups.flatten.flatMap fun e => message e.1 := List.flatMap_map ..
    rw [read_eq_some, hnames, ← List.append_nil ((groups.map refinementText).flatMap _),
      ← List.append_nil (groups.flatten.flatMap _), scan_refinements_iff, and_iff_left hend]
  rw [← hread, Speaks, printAll_refinements]
  constructor
  · rintro ⟨texts, hprinted, htexts⟩
    cases hprinted
    exact htexts
  · exact fun h => ⟨_, rfl, h⟩

/-! ## Keywords -/

/-- What a property asks for, as a field of a schema's keyword. -/
def requirement (e : String × List String) : Scalar × Value :=
  (.text e.1, .list (e.2.map Value.text))

/-- The entries that ask for anything. -/
def asking (entries : List (String × List String)) : List (String × List String) :=
  entries.filter fun e => !e.2.isEmpty

/-- The names of the properties that ask for others. -/
def askingNames (entries : List (String × List String)) : List String :=
  (asking entries).map (·.1)

/-- Only what asks for something is looked at. -/
theorem filter_requirements (entries : List (String × List String)) :
    (entries.map requirement).filter (fun f => f.2.isSet) = (asking entries).map requirement := by
  rw [List.filter_map, asking]
  congr 2
  funext e
  simp [requirement, Value.isSet]

theorem mapM_requiredCheck (entries : List (String × List String)) :
    ((entries.map requirement).mapM fun f => do requiredCheck f.1 (← f.2.walk)) =
      .ok (entries.map check) := by
  refine Outcome.mapM_of_forall₂ ?_
  rw [List.forall₂_map_left_iff, List.forall₂_map_right_iff]
  exact List.forall₂_same.mpr fun e _ => requiredCheck_text e

/-- **`dependentRequired` makes one refinement**, if any property asks for others. -/
theorem dependentRequired_eq {schema : Fields} {entries : List (String × List String)}
    (h : schema.value "dependentRequired" = .object (entries.map requirement)) :
    dependentRequired schema =
      .ok ((if asking entries = [] then [] else [asking entries]).map refinement) := by
  unfold dependentRequired
  rw [h]
  simp only [filter_requirements, mapM_requiredCheck, Outcome.ok_bind]
  cases asking entries with
  | nil => rfl
  | cons e es => rfl

/-- The modifiers for one entry of `dependencies`. -/
def dependencyModifiers (inner : Inner) (f : Scalar × Value) : Compile (List Modifier) := do
  match f.2 with
  | .list [] => pure []
  | .list required => pure [superRefine [.text (← requiredCheck f.1 required)]]
  | .object schema => pure [← dependentSchema inner f.1 schema]
  | _ => pure []

theorem dependencies_eq {inner : Inner} {schema entries : Fields}
    (h : schema.value "dependencies" = .object entries) :
    dependencies inner schema = do
      return (← List.mapM (dependencyModifiers inner) entries).flatten := by
  unfold dependencies
  rw [h]
  rfl

/-- The modifiers for a property that may ask for others: a refinement of its own if it does. -/
def ownRefinement (e : String × List String) : List Modifier :=
  ((asking [e]).map ([·])).map refinement

/-- A dependency on names is compiled without any schema. -/
theorem run_dependencyModifiers (inner : Inner) (e : String × List String) (p : Progress) :
    (dependencyModifiers inner (requirement e)).run p = (.ok (ownRefinement e), p) := by
  obtain ⟨name, required⟩ := e
  cases required with
  | nil => rfl
  | cons other required =>
    have hcheck : requiredCheck (.text name) (.text other :: required.map Value.text) =
        .ok (check (name, other :: required)) := requiredCheck_text (name, other :: required)
    have hown : ownRefinement (name, other :: required) =
        [superRefine [.text (check (name, other :: required))]] := by
      show [superRefine [.text (join " " [check (name, other :: required)])]] = _
      rw [join, String.intercalate_singleton]
    show ((liftM (requiredCheck (.text name) (.text other :: required.map Value.text)) :
      Compile String) >>= fun text => pure [superRefine [.text text]]).run p = _
    rw [hcheck, hown]
    rfl

theorem run_mapM_dependencyModifiers (inner : Inner) (p : Progress) :
    ∀ entries : List (String × List String),
      ((entries.map requirement).mapM (dependencyModifiers inner)).run p =
        (.ok (entries.map ownRefinement), p)
  | [] => rfl
  | e :: entries => by
    rw [List.map_cons, List.mapM_cons, run_bind_ok (run_dependencyModifiers inner e p),
      run_bind_ok (run_mapM_dependencyModifiers inner p entries)]
    rfl

theorem flatten_ownRefinements (entries : List (String × List String)) :
    (entries.map ownRefinement).flatten = ((asking entries).map ([·])).map refinement := by
  induction entries with
  | nil => rfl
  | cons e entries ih =>
    have hsplit : asking (e :: entries) = asking [e] ++ asking entries :=
      List.filter_append [e] entries
    rw [List.map_cons, List.flatten_cons, ih, hsplit, List.map_append, List.map_append]
    rfl

/-- **`dependencies` makes a refinement for each property that asks for others.** -/
theorem run_dependencies {inner : Inner} {schema : Fields} {entries : List (String × List String)}
    (h : schema.value "dependencies" = .object (entries.map requirement)) (p : Progress) :
    (dependencies inner schema).run p = (.ok (((asking entries).map ([·])).map refinement), p) := by
  rw [dependencies_eq h, run_bind_ok (run_mapM_dependencyModifiers inner p entries),
    ← flatten_ownRefinements]
  rfl

/-! ## All messages -/

/-- However the properties that ask for others are put into refinements. -/
theorem speaks_asking {level : Nat} {entries : List (String × List String)}
    {groups : List (List (String × List String))} (h : groups.flatten = asking entries) :
    Speaks level (groups.map refinement) (askingNames entries) ↔
      ∀ name ∈ askingNames entries, Plain name.toList := by
  rw [askingNames, ← h, List.forall_mem_map]
  exact speaks_iff

theorem flatten_singletons {α : Type} (l : List α) : (l.map ([·])).flatten = l := by
  induction l with
  | nil => rfl
  | cons a l ih => rw [List.map_cons, List.flatten_cons, ih, List.singleton_append]

/-- **The text that checks the names which properties require reads as it should if all names of these
properties are plain, and only then**: every literal in it is closed, and each name stands in its
message as literal text. So it is for `dependentRequired` and for `dependencies`, and in these for
every property that asks for others by a list, whatever other properties ask for. -/
theorem messages_iff_plain (schema : Fields) (level : Nat) :
    (∀ entries, schema.value "dependentRequired" = .object (entries.map requirement) →
      ∃ modifiers, dependentRequired schema = .ok modifiers ∧
        (Speaks level modifiers (askingNames entries) ↔
          ∀ name ∈ askingNames entries, Plain name.toList)) ∧
    (∀ entries inner p, schema.value "dependencies" = .object (entries.map requirement) →
      ∃ modifiers, (dependencies inner schema).run p = (.ok modifiers, p) ∧
        (Speaks level modifiers (askingNames entries) ↔
          ∀ name ∈ askingNames entries, Plain name.toList)) ∧
    (∀ entries inner p q modifiers, schema.value "dependencies" = .object entries →
      (dependencies inner schema).run p = (.ok modifiers, q) →
      ∃ groups, modifiers = groups.flatten ∧ List.Forall₂ (fun entry group =>
        ∀ e, entry = requirement e → (Speaks level group (askingNames [e]) ↔
          ∀ name ∈ askingNames [e], Plain name.toList)) entries groups) := by
  refine ⟨fun entries h => ?_, fun entries inner p h => ?_,
    fun entries inner p q modifiers h hrun => ?_⟩
  · refine ⟨_, dependentRequired_eq h, speaks_asking ?_⟩
    split
    · rename_i hnone
      rw [hnone]
      rfl
    · simp
  · exact ⟨_, run_dependencies h p, speaks_asking (flatten_singletons _)⟩
  · rw [dependencies_eq h] at hrun
    obtain ⟨groups, r, hgroups, hrun⟩ := run_bind_eq_ok hrun
    cases hrun
    refine ⟨groups, rfl, (run_mapM_eq_ok (I := fun _ => True) ?_ trivial hgroups).1⟩
    rintro f - p' group q' - hgroup
    refine ⟨fun e he => ?_, trivial⟩
    rw [he, run_dependencyModifiers] at hgroup
    cases hgroup
    exact speaks_asking (flatten_singletons _)

/-- A schema in which the presence of one property asks for another. -/
def requiringSchema (name other : String) : Fields :=
  [(.text "dependentRequired", .object ([(name, [other])].map requirement))]

theorem messages_iff_plain_billing : ∃ modifiers,
    dependentRequired (requiringSchema "card-number" "billing_address") = .ok modifiers ∧
      Speaks 0 modifiers ["card-number"] := by
  obtain ⟨modifiers, hmodifiers, hiff⟩ :=
    (messages_iff_plain (requiringSchema "card-number" "billing_address") 0).1
      [("card-number", ["billing_address"])] rfl
  exact ⟨modifiers, hmodifiers, hiff.mpr (List.forall_mem_singleton.mpr (by decide))⟩

/-- **A backtick in the name of a property ends the message about it.** -/
theorem not_speaks_backtick :
    ∃ modifiers, dependentRequired (requiringSchema "a`b" "c") = .ok modifiers ∧
      ¬ Speaks 0 modifiers ["a`b"] := by
  have hgiven : (requiringSchema "a`b" "c").value "dependentRequired" =
      .object ([("a`b", ["c"])].map requirement) := rfl
  have hflat : [[("a`b", ["c"])]].flatten = asking [("a`b", ["c"])] := rfl
  refine ⟨_, dependentRequired_eq hgiven, fun h => ?_⟩
  have hplain := (speaks_asking hflat).mp h
  exact absurd (hplain "a`b" List.mem_cons_self) (by decide)

end SchemaForge.Compile
