import SchemaForge.Proofs.Compile.CachedSchemas
import SchemaForge.Proofs.Compile.Merging

/-!
# The first definition of a property counts

What an `allOf` of inline objects holds under a name is what the first definition of the name compiles
to, up to its canonical text. In a session without a name the first branch may be answered from the
cache with what its twin was compiled to, a schema with the same canonical text. But the twin is an
inline object as well, and its properties are defined by canonically the same definitions.
-/

namespace SchemaForge.Compile

open Reference Schema Visibility Json

variable {env view : Environment} {p q earlier : Progress} {branch twin : Fields} {n : Scalar}
  {e : Expression} {omitted : List Scalar} {levels : Nat} {branches : List Fields} {nullable : Bool}
  {settled : Prop}

/-! ## Twins -/

/-- What a tidy schema declares, a tidy schema with its canonical text declares too. -/
theorem exists_ownProperty (h : SameCanonical (.object branch) (.object twin))
    (hbranch : (Value.object branch).Tidy) (htwin : (Value.object twin).Tidy) {d : Value}
    (hd : Fields.lookup n (ownProperties branch) = some d) :
    ∃ d', Fields.lookup n (ownProperties twin) = some d' ∧ SameCanonical d d' := by
  by_cases hvalue : ∃ properties, branch.value "properties" = .object properties
  · obtain ⟨properties, hvalue⟩ := hvalue
    have hheld : branch.get? "properties" = some (.object properties) := by
      rw [← hvalue]
      exact Fields.get?_of_has (Fields.has_of_value_ne (by simp [hvalue]))
    obtain ⟨v', hheld', hsame⟩ := h.exists_get? hbranch htwin hheld
    obtain ⟨properties', rfl⟩ := hsame.exists_object
    have hvalue' := Fields.value_of_get? hheld'
    rw [ownProperties_of_object hvalue] at hd
    rw [ownProperties_of_object hvalue']
    exact hsame.exists_lookup (hvalue ▸ hbranch.value _) (hvalue' ▸ htwin.value _) hd
  · rw [ownProperties_of_not_object (not_exists.mp hvalue)] at hd
    cases hd

/-- **The twin of an inline object is one.** -/
theorem InlineObject.of_twin (hinline : InlineObject branch)
    (h : SameCanonical (.object branch) (.object twin)) (hbranch : (Value.object branch).Tidy)
    (htwin : (Value.object twin).Tidy) : InlineObject twin := by
  refine ⟨?_, fun k hk => ?_⟩
  · have hheld : branch.get? "type" = some (.text "object") := by
      rw [← hinline.typed]
      exact Fields.get?_of_has (Fields.has_of_value_ne (by rw [hinline.typed]; nofun))
    obtain ⟨v', hheld', t, ht, ht'⟩ := h.exists_get? hbranch htwin hheld
    cases ht
    rw [Fields.value_of_get? hheld']
    exact eq_text_of_write ht' (ownText_of_dash (by decide))
  · by_contra hhas
    obtain ⟨v, hheld, -⟩ := h.symm.exists_get? htwin hbranch
      (Fields.get?_of_has (by simpa using hhas))
    have hnone := hinline.plain k hk
    rw [Fields.has_of_get? hheld] at hnone
    cases hnone

/-- A branch whose required names, if it lists any, are texts that no day and no moment is written
as. -/
def ListsNames (branch : Fields) : Prop :=
  ∀ required, branch.get? "required" = some required →
    ∃ names : List String, required = .list (names.map .text) ∧ ∀ k ∈ names, OwnText k

/-- **The twin of a branch that lists names requires what the branch requires.** -/
theorem ListsNames.requires_twin (hlists : ListsNames branch)
    (h : SameCanonical (.object branch) (.object twin)) (hbranch : (Value.object branch).Tidy)
    (htwin : (Value.object twin).Tidy) (n : Scalar) : requires twin n = requires branch n := by
  have hvalue : twin.value "required" = branch.value "required" := by
    cases hget : branch.get? "required" with
    | some required =>
      obtain ⟨names, rfl, hown⟩ := hlists _ hget
      obtain ⟨w, hw, hsame⟩ := h.exists_get? hbranch htwin hget
      rw [Fields.value_of_get? hw, Fields.value_of_get? hget]
      exact hsame.eq_texts hown
    | none =>
      cases hget' : twin.get? "required" with
      | none => rw [Fields.value, Fields.value, hget, hget']
      | some w =>
        obtain ⟨v, hv, -⟩ := h.symm.exists_get? htwin hbranch hget'
        rw [hget] at hv
        cases hv
  rw [requires, requires, hvalue]

/-! ## Answers from the cache -/

/-- What a schema compiles to in the course of a run, or did in the course of an earlier one that was
made with the same options and found in the cache what the generator had filed. -/
def EverCompiled (env : Environment) (p : Progress) (v : Value) (e : Expression) : Prop :=
  CompiledFrom env p v e ∨ ∃ view earlier, SameOptions env view ∧
    earlier.caches.schemas.All (Filed env) ∧ CompiledFrom view earlier v e

/-- Entries made of a definition, or of one that is canonically the same, now or earlier. They are
optional by what the branch requires, if that is `settled`, and else by what its twin did. -/
def everMade (settled : Prop) (env : Environment) (p : Progress) : Making := fun branch n d entry =>
  ∃ d' version c required, (d' = d ∨ SameCanonical d d') ∧ VersionOf env d' version ∧
    EverCompiled env p version c ∧ entry = entryOf required c ∧
    (settled → required = requires branch n)

theorem MadeOf.everMade {d : Value} {entry : Node} (h : MadeOf env p branch n d entry) :
    everMade settled env p branch n d entry := by
  obtain ⟨version, c, hversion, hc, rfl⟩ := h
  exact ⟨d, version, c, _, Or.inl rfl, hversion, Or.inl hc, rfl, fun _ => rfl⟩

/-- **What the twin of a branch added earlier, the branch may add now.** -/
theorem Adds.of_twin {added : Option Node} (h : Adds view (MadeOf view earlier) twin omitted n added)
    (hsame : SameCanonical (.object branch) (.object twin)) (hbranch : (Value.object branch).Tidy)
    (htwin : (Value.object twin).Tidy) (hoptions : SameOptions env view)
    (hearlier : earlier.caches.schemas.All (Filed env)) (hlists : settled → ListsNames branch) :
    Adds env (everMade settled env p) branch omitted n added := by
  have hvisibility := hoptions.reads.visibility
  have hshows : ∀ {d d' : Value}, Fields.lookup n (ownProperties branch) = some d →
      Fields.lookup n (ownProperties twin) = some d' → SameCanonical d d' →
      env.context.visibility.shows d = view.context.visibility.shows d' := by
    intro d d' hd hd' hsame
    obtain ⟨k, hk, -⟩ := Fields.mem_of_lookup hd
    obtain ⟨k', hk', -⟩ := Fields.mem_of_lookup hd'
    rw [hvisibility]
    exact hsame.shows (Fields.distinct_of_mem (distinct_ownProperties hbranch.distinct) hk)
      (Fields.distinct_of_mem (distinct_ownProperties htwin.distinct) hk') _
  cases h with
  | nothing lost =>
    refine .nothing fun d hd hshown => ?_
    obtain ⟨d', hd', hdd'⟩ := exists_ownProperty hsame hbranch htwin hd
    exact lost d' hd' (hshows hd hd' hdd' ▸ hshown)
  | @entry d' entry defined shown kept made =>
    obtain ⟨d, hd, hd'd⟩ := exists_ownProperty hsame.symm htwin hbranch defined
    obtain ⟨version, c, hversion, hc, rfl⟩ := made
    refine .entry hd (hshows hd defined hd'd.symm ▸ shown) kept
      ⟨d', version, c, _, Or.inr hd'd.symm, ?_, Or.inr ⟨view, earlier, hoptions, hearlier, hc⟩, rfl,
        fun hsettled => (hlists hsettled).requires_twin hsame hbranch htwin n⟩
    rw [VersionOf, hvisibility]
    exact hversion

/-- A branch that is compiled and not answered from the cache, or that is named by texts, as in JSON,
where the cache holds what the generator filed. -/
def Answerable (env : Environment) (p : Progress) (branch : Fields) : Prop :=
  Uncached env p branch false true ∨
    Fields.textNamed branch = true ∧ p.caches.schemas.All (Filed env)

/-- **However an inline object is answered, what it adds was made of its definitions.** -/
theorem InlineObject.answered (hinline : InlineObject branch) (hdistinct : Fields.distinct branch = true)
    (hanswerable : Answerable env p branch)
    (hlists : settled → Uncached env p branch false true ∨ ListsNames branch) :
    Answered env p (everMade settled env p) branch := by
  intro q r levels e hfollows hcaches h
  obtain ⟨levels, r', h⟩ := run_within_object h
  have hadds : ∀ {env : Environment} {start : Progress} {branch : Fields} {n : Scalar},
      Fields.distinct branch = true →
      List.Forall₂ (Offers env start branch) (visibleProperties env (ownProperties branch)) e.entries →
      Adds env (MadeOf env start) branch [] n (e.held? n) := by
    intro env start branch n hdistinct hoffers
    rw [← sparedProperties_nil] at hoffers
    exact adds_of_offers (Fields.distinct_iff.mp (distinct_ownProperties hdistinct)).2 hoffers n
  rcases run_compileCached_cases h with ⟨r, hrun⟩ | ⟨hname, key, hkey, hfound⟩
  · obtain ⟨hoffers, hspelled⟩ := hinline.offers_of_compileFields
      (Onward.aside .refl hfollows hcaches).deeper hrun
    exact ⟨hspelled, fun n => (hadds hdistinct hoffers).mono fun _ _ => MadeOf.everMade⟩
  · replace hname : p.session.name = none := hfollows.name.symm.trans hname
    replace hfound : (p.caches.schemas.find key).1 = some e := hcaches ▸ hfound
    have hcached : ¬ Uncached env p branch false true := by
      rintro (hnamed | hnone)
      · rw [hname] at hnamed
        cases hnamed
      · rw [hnone key hkey] at hfound
        cases hfound
    rcases hanswerable with huncached | ⟨hnamed, hfiled⟩
    · exact absurd huncached hcached
    · have hbranch : (Value.object branch).Tidy := ⟨hnamed, hdistinct⟩
      obtain ⟨-, hentry⟩ := hfiled.find (Prod.mk.eta (p := p.caches.schemas.find key)).symm
      obtain ⟨view, twin, levels, earlier, r, hoptions, htwin, hsame, hearlier, hrun⟩ :=
        (hentry e hfound).exists_twin hkey
      obtain ⟨hoffers, hspelled⟩ := (hinline.of_twin hsame hbranch htwin).offers_of_compileFields
        .refl hrun
      exact ⟨hspelled, fun n =>
        (hadds htwin.distinct hoffers).of_twin hsame hbranch htwin hoptions hearlier
          fun hsettled => (hlists hsettled).resolve_left hcached⟩

/-! ## Merged objects -/

/-- **The merged object holds under each name what the branches hold**, made now or earlier. -/
theorem effective_compileAllOf (hlength : 2 ≤ branches.length)
    (hinline : ∀ b ∈ branches, InlineObject b) (hdistinct : ∀ b ∈ branches, Fields.distinct b = true)
    (hfirst : ∀ first ∈ branches.head?, Answerable env p first)
    (hlists : ∀ first ∈ branches.head?, settled → Uncached env p first false true ∨ ListsNames first)
    (h : (compileAllOf env (within env (compileReference env) levels) (branches.map .object)
      nullable).run p = (.ok e, q)) :
    ∃ losings, LosesInTurn [] (branches.map ownProperties) losings ∧
      Composed env p q branches losings.flatten nullable e ∧ e.SpelledOut ∧
      ∀ n, Effective env (everMade settled env p) branches n (e.held? n) :=
  effective_of_answered MadeOf.everMade hlength hinline hdistinct (fun first hmem =>
    (hinline first (List.mem_of_mem_head? hmem)).answered
      (hdistinct first (List.mem_of_mem_head? hmem)) (hfirst first hmem) (hlists first hmem)) h

/-- **The first definition of a property counts.** Under each name that is visible by its first
definition, the merged object holds what a canonically equal definition compiles to, and it holds no
other names. The conflicts are the names with a definition that is not canonically the first: they
are what the note on the object tells, and besides them and what was there before, no conflicts are
recorded but those of compositions inside the branches. -/
theorem first_definition_counts (hlength : 2 ≤ branches.length)
    (hinline : ∀ b ∈ branches, InlineObject b) (hdistinct : ∀ b ∈ branches, Fields.distinct b = true)
    (hfirst : ∀ first ∈ branches.head?, Answerable env p first)
    (h : (compileAllOf env (within env (compileReference env) levels) (branches.map .object)
      nullable).run p = (.ok e, q)) :
    (e.SpelledOut ∧ ∀ n, match firstDefinition (branches.map ownProperties) n with
      | none => e.held? n = none
      | some d =>
        if env.context.visibility.shows d then
          ∃ d' version c required, SameCanonical d d' ∧ VersionOf env d' version ∧
            EverCompiled env p version c ∧ e.held? n = some (entryOf required c)
        else e.held? n = none) ∧
    ∃ conflicted : List Scalar,
      (∀ n, conflicted.any (·.same n) = true ↔
        ∃ d, firstDefinition (branches.map ownProperties) n = some d ∧
          ∃ b ∈ branches, ∃ d', Fields.lookup n (ownProperties b) = some d' ∧ ¬ SameCanonical d d') ∧
      Composed env p q branches conflicted nullable e := by
  obtain ⟨losings, hturn, hcomposed, hspelled, heffective⟩ :=
    effective_compileAllOf hlength hinline hdistinct hfirst (fun _ _ => False.elim) h
  refine ⟨⟨hspelled, fun n => ?_⟩, losings.flatten, fun n => ?_, hcomposed⟩
  · have hentry := heffective n
    generalize e.held? n = entry at hentry ⊢
    cases hentry with
    | undeclared first => rw [first]
    | hidden first hidden =>
      rw [first]
      dsimp only
      rw [if_neg (by simp [hidden])]
    | @shown d d₁ entry earlier later b first shown split defined same last made =>
      obtain ⟨d', version, c, required, hd', hversion, hc, rfl, -⟩ := made
      have hsame : SameCanonical d d' := by
        rcases hd' with rfl | hd'
        · exact same
        · exact same.trans hd'
      rw [first]
      dsimp only
      rw [if_pos shown]
      exact ⟨d', version, c, required, hsame, hversion, hc, rfl⟩
  · rw [any_losings_iff hturn]
    simp only [List.nil_append, List.mem_map, exists_exists_and_eq_and]

/-- A record with a number that is read-only, and what a later edition says of it. -/
def editions : List Fields :=
  [[(.text "type", .text "object"), (.text "properties", .object
      [(.text "id", .bool true), (.text "number", .object [(.text "readOnly", .bool true)])])],
   [(.text "type", .text "object"), (.text "properties", .object
      [(.text "id", .bool false), (.text "title", .bool true)])]]

/-- The call for a branch of a composition, in a session without a name. -/
def Call.ofBranch (env : Environment) (branch : Fields) : Call :=
  { env, task := .schema (.object branch) false true }

/-- The first edition was compiled before, so it is answered from the cache. -/
theorem first_definition_counts_editions :
    ∃ env p e q, Environment.ofConfig { visibility := .request } [] = .ok env ∧
      p.caches = after env.caches (editions.head?.toList.map (Call.ofBranch env)) ∧
      p.caches.schemas.size = 1 ∧
      (compileAllOf env (within env (compileReference env) 3) (editions.map .object) false).run p =
        (.ok e, q) ∧
      e.entries.map Property.name = [.text "id", .text "title"] ∧
      (∃ d version c required, SameCanonical (.bool true) d ∧ VersionOf env d version ∧
        EverCompiled env p version c ∧ e.held? (.text "id") = some (entryOf required c)) ∧
      e.held? (.text "number") = none ∧
      ∃ k, k.same (.text "id") = true ∧ conflictText "inline" k ∈ q.session.conflicts := by
  obtain ⟨env, henv, hvisibility, hsize, hgives⟩ : ∃ env,
      Environment.ofConfig { visibility := .request } [] = .ok env ∧
      env.context.visibility = .request ∧
      (after env.caches (editions.head?.toList.map (Call.ofBranch env))).schemas.size = 1 ∧
      ((compileAllOf env (within env (compileReference env) 3) (editions.map .object) false).run
          ⟨{}, after env.caches (editions.head?.toList.map (Call.ofBranch env)), []⟩).1.toOption.map
          (fun e => e.entries.map Property.name) = some [.text "id", .text "title"] :=
    ⟨_, rfl, rfl, by decide +kernel⟩
  have hfiled : (after env.caches (editions.head?.toList.map (Call.ofBranch env))).schemas.All
      (Filed env) := by
    obtain ⟨ctx, -, hmake⟩ := Outcome.bind_eq_ok.mp henv
    obtain ⟨graph, -, hmake⟩ := Outcome.bind_eq_ok.mp hmake
    refine filed_after (lift_eq_ok hmake) (Or.inl rfl) fun c hc => ?_
    obtain ⟨first, hfirst, rfl⟩ := List.mem_map.mp hc
    have htidy : ∀ first ∈ editions.head?.toList,
        Fields.textNamed first = true ∧ Fields.distinct first = true := by decide
    exact ⟨Or.inl rfl, (htidy first hfirst).1, (htidy first hfirst).2⟩
  obtain ⟨e, hrun, hnames⟩ := Option.map_eq_some_iff.mp hgives
  rw [Outcome.toOption_eq_some] at hrun
  have hinline : ∀ b ∈ editions, InlineObject b := by
    simp only [editions, List.forall_mem_cons, List.not_mem_nil, false_implies, implies_true, and_true]
    exact ⟨⟨rfl, by decide⟩, ⟨rfl, by decide⟩⟩
  have htexts : ∀ first ∈ editions.head?, Fields.textNamed first = true := by decide
  generalize hcaches : after env.caches (editions.head?.toList.map (Call.ofBranch env)) = caches
    at hsize hrun hfiled
  obtain ⟨⟨-, hentries⟩, conflicted, hconflicted, hcomposed⟩ :=
    first_definition_counts (by decide) hinline (by decide)
      (fun first hfirst => Or.inr ⟨htexts first hfirst, hfiled⟩) (Prod.ext hrun rfl)
  have hid : firstDefinition (editions.map ownProperties) (.text "id") = some (.bool true) := rfl
  refine ⟨env, ⟨{}, caches, []⟩, e, _, henv, hcaches.symm, hsize, Prod.ext hrun rfl, hnames, ?_, ?_, ?_⟩
  · have hentry := hentries (.text "id")
    rw [hid] at hentry
    dsimp only at hentry
    rwa [if_pos (by rw [hvisibility]; rfl)] at hentry
  · have hentry := hentries (.text "number")
    have hnumber : firstDefinition (editions.map ownProperties) (.text "number") =
        some (.object [(.text "readOnly", .bool true)]) := rfl
    rw [hnumber] at hentry
    dsimp only at hentry
    rwa [if_neg (by rw [hvisibility]; decide)] at hentry
  · have hdiffers : ¬ SameCanonical (.bool true) (.bool false) := by
      rintro ⟨t, ht, ht'⟩
      have htexts : "true" = "false" := Except.ok.inj (ht.trans ht'.symm)
      exact absurd htexts (by decide)
    obtain ⟨k, hk, hsame⟩ := List.any_eq_true.mp ((hconflicted (.text "id")).mpr
      ⟨_, hid, _, .tail _ (.head _), .bool false, rfl, hdiffers⟩)
    exact ⟨k, hsame, hcomposed.recorded k hk⟩

end SchemaForge.Compile
