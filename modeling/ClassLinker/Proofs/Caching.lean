import ClassLinker.Proofs.Courses

/-!
# Loading from a cache

A cache changes nothing but how often a source is asked.

* `Caching.IsTransparent`: whatever a source does, it is asked for the summary of a class until it
  has an answer and never again, and every request gets its error or that answer
  (`Caching.isTransparent`);
* `Loader.Used`: a loader has been used by any number of runs, and whatever has failed in them, it
  knows what its sources hold (`Loader.Used.knows_eq`);
* `State.settle_eq`: two runs that get to an end in the same universe end in the same state.

So an analysis that does not fail has the same result with every loader over the same sources
(`caching_transparent`).
-/

namespace ClassLinker

/-- The answer to a request for the summary of a class. -/
abbrev SummaryAnswer : Type := Except LoadError (Option ClassSummary)

/-! ### Sequences of requests -/

/-- What is answered as before, where the names of the classes asked for are noted. -/
def Asking.logged {σ : Type} (ask : Asking σ) : Asking (σ × List ClassName) :=
  fun cls (source, log) => ((ask cls source).1, (ask cls source).2, log ++ [cls])

namespace Caching

variable {σ τ : Type} {ask : Asking σ} {caching : Caching σ} {source : σ}
variable {cls other : ClassName} {names : List ClassName}

/-- The answers to several requests in turn, each with the class that it is about. -/
def loadAll (ask : Asking σ) :
    List ClassName → Caching σ → List (ClassName × SummaryAnswer) × Caching σ
  | [], caching => ([], caching)
  | cls :: rest, caching =>
    let first := caching.load ask cls
    let later := loadAll ask rest first.2
    ((cls, first.1) :: later.1, later.2)

/-- The first answer about a class that is no error. -/
def firstAnswer? (cls : ClassName) (answers : List (ClassName × SummaryAnswer)) :
    Option (Option ClassSummary) :=
  answers.findSome? fun answer => if answer.1 = cls then answer.2.toOption else none

/-- The answers about a class. -/
def answersAbout (cls : ClassName) (answers : List (ClassName × SummaryAnswer)) :
    List (ClassName × SummaryAnswer) :=
  answers.filter fun answer => answer.1 = cls

theorem firstAnswer?_cons (cls first : ClassName) (answer : SummaryAnswer)
    (rest : List (ClassName × SummaryAnswer)) :
    firstAnswer? cls ((first, answer) :: rest) =
      ((if first = cls then answer.toOption else none) <|> firstAnswer? cls rest) := by
  rw [firstAnswer?, List.findSome?_cons]
  cases if first = cls then answer.toOption else none <;> rfl

theorem load_of_cached {known : Option ClassSummary} (cached : caching.cached? cls = some known) :
    caching.load ask cls = (.ok known, caching) := by
  simp only [load, cached]

theorem load_of_new (new : caching.cached? cls = none) :
    caching.load ask cls = ((ask cls caching.source).1,
      { source := (ask cls caching.source).2,
        cache := caching.cache.insert cls (ask cls caching.source).1.toOption }) := by
  simp only [load, new]

/-- A request says what is cached for the class from then on, and leaves all other classes alone. -/
theorem cached?_load (cls other : ClassName) (caching : Caching σ) :
    (caching.load ask cls).2.cached? other =
      if cls = other then (caching.load ask cls).1.toOption else caching.cached? other := by
  cases cached : caching.cached? cls with
  | some known =>
    rw [load_of_cached cached]
    split
    · rename_i same
      rw [← same, cached]
      rfl
    · rfl
  | none =>
    rw [load_of_new cached]
    simp only [cached?, Std.ExtTreeMap.getElem?_insert, Std.compare_eq_iff_eq]
    split <;> rfl

theorem mem_cache_load (cls other : ClassName) (caching : Caching σ) :
    other ∈ (caching.load ask cls).2.cache ↔ other = cls ∨ other ∈ caching.cache := by
  cases cached : caching.cached? cls with
  | some known =>
    rw [load_of_cached cached, or_iff_right_of_imp]
    rintro rfl
    rw [Std.ExtTreeMap.mem_iff_isSome_getElem?]
    unfold cached? at cached
    cases value : caching.cache[other]? with
    | none => rw [value] at cached; cases cached
    | some => rfl
  | none =>
    rw [load_of_new cached, Std.ExtTreeMap.mem_insert, Std.compare_eq_iff_eq, eq_comm]

/-- What is cached after some requests has been cached before, or is the first answer to them. -/
theorem cached?_loadAll (names : List ClassName) (cls : ClassName) (caching : Caching σ) :
    (loadAll ask names caching).2.cached? cls =
      (caching.cached? cls <|> firstAnswer? cls (loadAll ask names caching).1) := by
  induction names generalizing caching with
  | nil => simp [loadAll, firstAnswer?]
  | cons first rest ih =>
    simp only [loadAll]
    rw [ih, cached?_load, firstAnswer?_cons]
    by_cases same : first = cls
    · subst same
      rw [if_pos rfl, if_pos rfl]
      cases cached : caching.cached? first with
      | some known => rw [load_of_cached cached]; rfl
      | none => rfl
    · rw [if_neg same, if_neg same]
      rfl

theorem mem_cache_loadAll (names : List ClassName) (cls : ClassName) (caching : Caching σ) :
    cls ∈ (loadAll ask names caching).2.cache ↔ cls ∈ names ∨ cls ∈ caching.cache := by
  induction names generalizing caching with
  | nil => simp [loadAll]
  | cons first rest ih =>
    simp only [loadAll]
    rw [ih, mem_cache_load, List.mem_cons, ← or_assoc, @or_comm (cls ∈ rest)]

/-! ### Which requests are passed on -/

/-- A source that can be seen as another one, and answers like it, behaves like it. -/
theorem loadAll_eq_of_view {ask' : Asking τ} (view : τ → σ)
    (same : ∀ cls source, (ask' cls source).1 = (ask cls (view source)).1 ∧
      view (ask' cls source).2 = (ask cls (view source)).2)
    (names : List ClassName) (caching : Caching τ) :
    (loadAll ask' names caching).1 =
      (loadAll ask names { source := view caching.source, cache := caching.cache }).1 := by
  induction names generalizing caching with
  | nil => rfl
  | cons first rest ih =>
    obtain ⟨answer, after⟩ := same first caching.source
    simp only [loadAll]
    cases cached : caching.cached? first with
    | some known =>
      have cached' : cached? { source := view caching.source, cache := caching.cache } first =
          some known := cached
      rw [load_of_cached cached, load_of_cached cached', ih]
    | none =>
      have new : cached? { source := view caching.source, cache := caching.cache } first = none :=
        cached
      rw [load_of_new cached, load_of_new new, ih, ← answer, ← after]

/-- Nothing is passed on for a class with a cached answer. For any other, all requests up to the
first answer are. -/
theorem count_log (names : List ClassName) (cls : ClassName)
    (caching : Caching (σ × List ClassName)) :
    let run := loadAll ask.logged names caching
    let own := answersAbout cls run.1
    run.2.source.2.count cls = caching.source.2.count cls +
      if (caching.cached? cls).isSome then 0
      else min own.length (own.findIdx (fun answer => answer.2.isOk) + 1) := by
  induction names generalizing caching with
  | nil => simp [loadAll, answersAbout]
  | cons first rest ih =>
    simp only [loadAll]
    simp only at ih
    rw [ih, cached?_load]
    cases cached : caching.cached? first with
    | some known =>
      rw [load_of_cached cached]
      by_cases same : first = cls
      · subst same
        simp [cached, Except.toOption]
      · simp [answersAbout, same]
    | none =>
      rw [load_of_new cached]
      by_cases same : first = cls
      · subst same
        have noted : ((ask.logged first caching.source).2.2).count first =
            caching.source.2.count first + 1 := by
          simp [Asking.logged]
        simp only [if_true, cached, noted]
        cases (ask.logged first caching.source).1 with
        | error error =>
          simp [answersAbout, Except.toOption, List.findIdx_cons, Except.isOk, Except.toBool]
          omega
        | ok known =>
          simp [answersAbout, Except.toOption, List.findIdx_cons, Except.isOk, Except.toBool]
      · have noted : ((ask.logged first caching.source).2.2).count cls =
            caching.source.2.count cls := by
          simp [Asking.logged, same]
        simp [answersAbout, same, noted]

/-- Where the answers about a class depend on what can be seen of the source only, and this does
not change as long as other classes are asked for, requests for other classes make no difference. -/
theorem answersAbout_loadAll (view : σ → τ)
    (own : ∀ first second, view first = view second → (ask cls first).1 = (ask cls second).1 ∧
      view (ask cls first).2 = view (ask cls second).2)
    (others : ∀ other source, other ≠ cls → view (ask other source).2 = view source)
    (names : List ClassName) (first second : Caching σ)
    (sources : view first.source = view second.source)
    (cached : first.cached? cls = second.cached? cls) :
    answersAbout cls (loadAll ask names first).1 =
      (loadAll ask (names.filter (· = cls)) second).1 := by
  induction names generalizing first second with
  | nil => rfl
  | cons name rest ih =>
    by_cases same : name = cls
    · subst same
      have kept : (rest.filter (· = name)) = rest.filter (· = name) := rfl
      simp only [loadAll, answersAbout, List.filter_cons, decide_true, if_true]
      cases known : first.cached? name with
      | some answer =>
        rw [load_of_cached known, load_of_cached (cached ▸ known)]
        exact congrArg _ (ih first second sources cached)
      | none =>
        obtain ⟨answer, after⟩ := own _ _ sources
        have cached' : ∀ caching : Caching σ, (caching.load ask name).2.cached? name =
            (caching.load ask name).1.toOption := fun caching => by rw [cached?_load, if_pos rfl]
        have firsts := cached' first
        have seconds := cached' second
        rw [load_of_new known] at firsts ⊢
        rw [load_of_new (cached ▸ known)] at seconds ⊢
        simp only at firsts seconds ⊢
        rw [← answer] at seconds ⊢
        exact congrArg _ (ih _ _ after (firsts.trans seconds.symm))
    · simp only [loadAll, answersAbout, List.filter_cons, same, decide_false, Bool.false_eq_true,
        if_false]
      refine ih _ _ ?_ ?_
      · rw [← sources]
        cases known : first.cached? name with
        | some answer => rw [load_of_cached known]
        | none =>
          rw [load_of_new known]
          exact others name _ same
      · rw [cached?_load, if_neg same, cached]

/-- What a cache promises of the requests that it gets, if it is empty in the beginning. -/
structure IsTransparent (ask : Asking σ) (source : σ) (names : List ClassName) : Prop where
  /-- After these requests, another one gets the first answer to them that is no error, and the
  source is left alone. Without such an answer the source is asked, and its answer is kept. -/
  load : ∀ cls, let run := loadAll ask names { source }
    run.2.load ask cls =
      match firstAnswer? cls run.1 with
      | some known => (.ok known, run.2)
      | none =>
        let asked := ask cls run.2.source
        (asked.1, { source := asked.2, cache := run.2.cache.insert cls asked.1.toOption })
  /-- Of the requests for a class, those up to the first answer are passed on to the source. -/
  calls : ∀ cls, let own := answersAbout cls (loadAll ask names { source }).1
    (loadAll ask.logged names { source := (source, []) }).2.source.2.count cls =
      min own.length (own.findIdx (fun answer => answer.2.isOk) + 1)
  /-- A request leaves what is kept for other classes alone. -/
  others : ∀ cls other, cls ≠ other → let after := (loadAll ask names { source }).2
    (after.load ask cls).2.cached? other = after.cached? other
  /-- If the source keeps classes apart, requests for other classes make no difference. -/
  alone : ∀ (cls : ClassName) (τ : Type) (view : σ → τ),
    (∀ first second, view first = view second → (ask cls first).1 = (ask cls second).1 ∧
      view (ask cls first).2 = view (ask cls second).2) →
    (∀ other source, other ≠ cls → view (ask other source).2 = view source) →
    answersAbout cls (loadAll ask names { source }).1 =
      (loadAll ask (names.filter (· = cls)) { source }).1
  requested : (loadAll ask names { source }).2.requestedCount = names.eraseDups.length

theorem cached?_empty (source : σ) (cls : ClassName) : cached? { source } cls = none := by
  simp [cached?]

/-- A cache keeps its promises whatever the source does. -/
theorem isTransparent (ask : Asking σ) (source : σ) (names : List ClassName) :
    IsTransparent ask source names where
  load cls := by
    intro run
    have cached : run.2.cached? cls = firstAnswer? cls run.1 := by
      rw [cached?_loadAll, cached?_empty]
      rfl
    cases known : firstAnswer? cls run.1 with
    | some answer => exact load_of_cached (cached.trans known)
    | none => exact load_of_new (cached.trans known)
  calls cls := by
    have counted := @count_log _ ask names cls { source := (source, []) }
    have same : (loadAll ask.logged names { source := (source, []) }).1 =
        (loadAll ask names { source }).1 :=
      loadAll_eq_of_view Prod.fst (fun _ _ => ⟨rfl, rfl⟩) names { source := (source, []) }
    simp only [same, cached?_empty] at counted
    simpa using counted
  others cls other ne := by
    intro after
    rw [cached?_load, if_neg ne]
  alone cls τ view own others :=
    answersAbout_loadAll view own others names _ _ rfl rfl
  requested := by
    let after := (loadAll ask names { source }).2
    have keys : after.cache.keys.Perm names.eraseDups := by
      refine (List.perm_ext_iff_of_nodup Std.ExtTreeMap.nodup_keys (nodup_eraseDups _)).2
        fun cls => ?_
      rw [Std.ExtTreeMap.mem_keys, mem_cache_loadAll, List.mem_eraseDups]
      simp
    show after.cache.size = _
    rw [← Std.ExtTreeMap.length_keys, keys.length_eq]

end Caching

/-! ### Used loaders -/

variable {name : ClassName} {state first second : State} {sources : List Source}
variable {allow : Bool} {requirement : Requirement} {loader others after after' : Loader}

/-- A step asks for summaries only. -/
theorem State.loads_step (state : State) (loader : Loader) :
    loader.Loads (state.step loader).2 := by
  unfold State.step
  split
  · exact .refl
  · exact (loader.loadSummaries_spec state.wanted).1

theorem State.loads_settle (steps : Nat) (state : State) (loader : Loader) :
    loader.Loads (state.settle steps loader).2 := by
  induction steps generalizing state loader with
  | zero => exact .refl
  | succ steps ih =>
    unfold settle
    split
    · exact .refl
    · have load := state.loads_step loader
      split <;> rename_i stepped <;> rw [stepped] at load
      · exact load.trans (ih _ _)
      · exact load

/-- An analysis asks for summaries only, whether or not it has a result. -/
theorem loads_analyze (allow : Bool) (requirement : Requirement) (loader : Loader) :
    loader.Loads (analyze allow requirement loader).2 := by
  unfold analyze
  simp only
  split
  · exact .refl
  · have load : loader.Load (loader.loadSummary .object).2 := .summary .object
    split <;> rename_i loaded <;> rw [loaded] at load
    · exact .single load
    · exact .single load
    · split
      · exact .single load
      · exact .head load (State.loads_settle ..)

namespace Loader

/-- A loader over sources with this content that has been used, and remembered nothing in the
beginning. Requests for summaries and declarations have been made, and analyses, which may have
failed. What fails can have changed at any time. -/
inductive Used (content : List Source) : Loader → Prop
  | fresh {loader : Loader} (empty : loader.cache = ∅)
      (same : loader.sources.map Source.content = content) : Used content loader
  | load {loader after : Loader} (used : Used content loader) (load : loader.Load after) :
      Used content after
  | analyze {loader : Loader} (allow : Bool) (requirement : Requirement)
      (used : Used content loader) : Used content (analyze allow requirement loader).2
  | refault {loader : Loader} {sources : List Source} (used : Used content loader)
      (same : sources.map Source.content = content) : Used content { loader with sources }

namespace Used

variable {content : List Source}

theorem content_eq (used : Used content loader) : loader.sources.map Source.content = content := by
  induction used with
  | fresh _ same | refault _ same => exact same
  | load _ load ih => exact (Loads.content (.single load)).trans ih
  | analyze allow requirement _ ih => exact (loads_analyze allow requirement _).content.trans ih

/-- Whatever has failed, a used loader knows what its sources hold. -/
theorem knows_eq (used : Used content loader) :
    loader.knows = fun name => content.findSome? fun source => source.summary? name := by
  have through : ∀ {sources : List Source}, sources.map Source.content = content →
      ∀ name, sources.findSome? (fun source => source.summary? name) =
        content.findSome? fun source => source.summary? name := by
    intro sources same name
    refine findSome?_summary? ?_ name
    rw [same, ← same, List.map_map]
    rfl
  induction used with
  | @fresh loader empty same =>
    funext name
    have new : loader.cached? name = none := by
      rw [cached?, Caching.cached?, show loader.caching.cache = loader.cache from rfl, empty,
        Std.ExtTreeMap.getElem?_empty]
      rfl
    simp only [knows, new]
    exact through same name
  | load _ load ih => exact (Loads.knows (.single load)).trans ih
  | analyze allow requirement _ ih => exact (loads_analyze allow requirement _).knows.trans ih
  | @refault loader sources used same ih =>
    funext name
    have before := congrFun ih name
    unfold knows at before ⊢
    show (match loader.cached? name with | some known => known | none => _) = _
    cases cached : loader.cached? name with
    | some known =>
      rw [cached] at before
      exact before
    | none => exact through same name

theorem entryPoints_eq (used : Used content loader) (used' : Used content others) :
    others.entryPoints = loader.entryPoints := by
  have through : ∀ sources : List Source, Chain.entryPoints sources =
      Chain.entryPoints (sources.map Source.content) := by
    intro sources
    rw [Chain.entryPoints, Chain.entryPoints, List.flatMap_map]
    rfl
  rw [entryPoints, entryPoints, through, through loader.sources, used.content_eq,
    used'.content_eq]

end Used

end Loader

/-! ### Runs in the same universe -/

namespace State

/-- Right answers that are taken in leave no choice. -/
theorem receiveAll_eq {world : Universe} {next : State}
    {answers : List (ClassName × SummaryAnswer)}
    (received : state.receiveAll answers = .ok next)
    (correct : ∀ name summary, (name, .ok summary) ∈ answers → summary = world name) :
    next = (answers.map Prod.fst).foldl (fun state name => state.receive name (world name))
      state := by
  induction answers generalizing state with
  | nil => exact (Except.ok.inj received).symm
  | cons answer rest ih =>
    obtain ⟨name, _ | summary⟩ := answer
    · cases received
    · obtain rfl := correct name summary List.mem_cons_self
      exact ih received fun other summary mem =>
        correct other summary (List.mem_cons_of_mem _ mem)

theorem loadWanted_eq {next : State} (loads : (state.loadWanted loader).1 = .ok next) :
    next = (state.wanted.foldl (fun s name => State.receive s name (loader.knows name))
      { state with wanted := [] }).linkAvailable := by
  obtain ⟨_, length, correct⟩ := loader.loadSummaries_spec state.wanted
  simp only [State.loadWanted] at loads
  obtain ⟨middle, received, rfl⟩ := exists_of_map_eq_ok loads
  have names : (state.wanted.zip (loader.loadSummaries state.wanted).1).map Prod.fst =
      state.wanted := List.map_fst_zip (Nat.le_of_eq length.symm)
  rw [receiveAll_eq received correct, names]

/-- In the same universe, steps from the same state lead to the same state. -/
theorem step_eq (same : others.knows = loader.knows)
    (steps : state.step loader = (.ok first, after))
    (steps' : state.step others = (.ok second, after')) : second = first := by
  rcases step_cases steps with ⟨task, rest, work, rfl, _⟩ | ⟨work, loads, _⟩
  · rcases step_cases steps' with ⟨task', rest', work', rfl, _⟩ | ⟨work', _⟩
    · obtain ⟨rfl, rfl⟩ := List.cons.inj (work'.symm.trans work)
      rfl
    · rw [work] at work'; cases work'
  · rcases step_cases steps' with ⟨_, _, work', _⟩ | ⟨_, loads', _⟩
    · rw [work] at work'; cases work'
    · rw [loadWanted_eq loads, loadWanted_eq loads', same]

/-- A run in which something is left to do makes a step. -/
theorem exists_step_of_settle (busy : state.isSettled = false) {steps : Nat}
    (ends : state.settle steps loader = (.ok second, after)) :
    ∃ fewer middle later, state.step loader = (.ok middle, later) ∧
      middle.settle fewer later = (.ok second, after) := by
  cases steps with
  | zero => simp [settle, busy] at ends
  | succ fewer =>
    simp only [settle, busy, Bool.false_eq_true, if_false] at ends
    cases stepped : state.step loader with
    | mk result later =>
      rw [stepped] at ends
      cases result with
      | error => cases ends
      | ok middle => exact ⟨fewer, middle, later, rfl, ends⟩

/-- Runs that come to an end in the same universe end in the same state, however many steps they
were allowed. -/
theorem settle_eq (steps steps' : Nat) (same : others.knows = loader.knows)
    (ends : state.settle steps loader = (.ok first, after))
    (ends' : state.settle steps' others = (.ok second, after')) : second = first := by
  -- Step by step, the second run is still ahead in a loader that knows the same.
  let Follows (state : State) (loader : Loader) : Prop := ∃ steps' others,
    others.knows = loader.knows ∧ state.settle steps' others = (.ok second, after')
  have preserves : ∀ {middle next : State} {before later : Loader}, Follows middle before →
      middle.isSettled = false → middle.step before = (.ok next, later) → Follows next later := by
    rintro middle next before later ⟨steps', others, same, ends'⟩ busy stepped
    obtain ⟨fewer, middle', later', stepped', ends'⟩ := exists_step_of_settle busy ends'
    obtain rfl := step_eq same stepped stepped'
    have loads := middle.loads_step before
    have loads' := middle.loads_step others
    rw [stepped] at loads
    rw [stepped'] at loads'
    exact ⟨fewer, later', loads'.knows.trans (same.trans loads.knows.symm), ends'⟩
  obtain ⟨⟨steps', others, _, ends'⟩, settled⟩ :=
    settle_induct preserves steps ⟨steps', others, same, ends'⟩ ends
  cases steps' <;> simp only [settle, settled, if_true] at ends' <;>
    exact (Except.ok.inj (Prod.mk.inj ends').1).symm

end State

/-- In the same universe, analyses that have results have the same result. -/
theorem analyze_eq_of_knows {analysis analysis' : Analysis}
    (same : others.knows = loader.knows) (entryPoints : others.entryPoints = loader.entryPoints)
    (ends : analyze allow requirement loader = (.ok analysis, after))
    (ends' : analyze allow requirement others = (.ok analysis', after')) :
    analysis' = analysis := by
  unfold analyze at ends ends'
  simp only [entryPoints] at ends ends'
  split at ends <;> rename_i idle
  · rw [if_pos idle] at ends'
    cases ends
    cases ends'
    rfl
  · rw [if_neg idle] at ends'
    have known : ∀ {summary}, (loader.loadSummary .object).1 = .ok summary →
        summary = loader.knows .object := Loader.knows_of_loadSummary
    have known' : ∀ {summary}, (others.loadSummary .object).1 = .ok summary →
        summary = loader.knows .object := fun loaded => same ▸ Loader.knows_of_loadSummary loaded
    have knows := loader.knows_loadSummary .object
    have knows' := others.knows_loadSummary .object
    generalize loader.loadSummary .object = loaded at ends known knows
    generalize others.loadSummary .object = loaded' at ends' known' knows'
    obtain ⟨_ | root, later⟩ := loaded
    · cases ends
    obtain ⟨_ | root', later'⟩ := loaded'
    · cases ends'
    obtain rfl : root' = root := (known' rfl).trans (known rfl).symm
    cases root' with
    | none =>
      cases ends
      cases ends'
      rfl
    | some root =>
      simp only at ends ends'
      split at ends <;> rename_i proper
      · rw [if_pos proper] at ends'
        cases ends
        cases ends'
        rfl
      · rw [if_neg proper] at ends'
        have sameLater : later'.knows = later.knows := knows'.trans (same.trans knows.symm)
        obtain ⟨settles, rfl⟩ := Prod.mk.inj ends
        obtain ⟨settles', rfl⟩ := Prod.mk.inj ends'
        obtain ⟨final, settled, rfl⟩ := exists_of_map_eq_ok settles
        obtain ⟨final', settled', rfl⟩ := exists_of_map_eq_ok settles'
        rw [State.settle_eq _ _ sameLater (Prod.ext settled rfl) (Prod.ext settled' rfl)]

/-- A cache is transparent: whatever a source does, it is asked for the summary of a class until it
has an answer, which is kept from then on, also that the class does not exist. So with a loader that
has been used in any way, an analysis that does not fail has the same result as with a loader that
remembers nothing. -/
theorem caching_transparent :
    (∀ {σ : Type} (ask : Asking σ) (source : σ) (names : List ClassName),
      Caching.IsTransparent ask source names) ∧
    (∀ (loader : Loader) (cls : ClassName),
      (loader.loadSummary cls).1 = (loader.caching.load Chain.ask cls).1 ∧
        (loader.loadSummary cls).2.caching = (loader.caching.load Chain.ask cls).2) ∧
    ∀ {content : List Source} {used fresh after after' : Loader} {allow : Bool}
      {requirement : Requirement} {analysis analysis' : Analysis},
      Loader.Used content used → fresh.cache = ∅ → fresh.sources.map Source.content = content →
        analyze allow requirement used = (.ok analysis, after) →
          analyze allow requirement fresh = (.ok analysis', after') → analysis = analysis' := by
  refine ⟨fun ask source names => Caching.isTransparent ask source names,
    fun loader cls => ⟨rfl, rfl⟩, fun used empty same ends ends' => ?_⟩
  have fresh := Loader.Used.fresh empty same
  exact analyze_eq_of_knows (used.knows_eq.trans fresh.knows_eq.symm) (fresh.entryPoints_eq used)
    ends' ends

/-- A root class and a class below it. -/
def couple : List ClassDecl :=
  [.ofMethods .object .plain [] [], .ofMethods ⟨"A"⟩ .plain [.object] []]

/-- A loader whose first request for the class below the root class fails. -/
def failing : Loader where
  sources := (Loader.ofDecls couple).sources.map fun source =>
    { source with faults := [⟨.summary, ⟨"A"⟩, .io "gone", some 1⟩] }

/-- After an analysis that has failed half-way, the next one has the result of a new loader. -/
theorem caching_transparent_failing :
    ∃ analysis after after',
      (analyze true (.typeData "test" ⟨"A"⟩) failing).1.toOption = none ∧
      analyze true (.typeData "test" ⟨"A"⟩) (analyze true (.typeData "test" ⟨"A"⟩) failing).2 =
        (.ok analysis, after) ∧
      analyze true (.typeData "test" ⟨"A"⟩) (Loader.ofDecls couple) = (.ok analysis, after') := by
  have fails : (analyze true (.typeData "test" ⟨"A"⟩) failing).1.toOption = none := by
    decide +kernel
  have again : (analyze true (.typeData "test" ⟨"A"⟩)
      (analyze true (.typeData "test" ⟨"A"⟩) failing).2).1.toOption.map
        (fun _ => ()) = some () := by
    decide +kernel
  have new : (analyze true (.typeData "test" ⟨"A"⟩) (Loader.ofDecls couple)).1.toOption.map
      (fun _ => ()) = some () := by
    decide +kernel
  obtain ⟨analysis, after, ends, _⟩ := exists_of_toOption_map again
  obtain ⟨analysis', after', ends', _⟩ := exists_of_toOption_map new
  have used : Loader.Used (failing.sources.map Source.content)
      (analyze true (.typeData "test" ⟨"A"⟩) failing).2 :=
    .analyze _ _ (.fresh rfl rfl)
  have same : (Loader.ofDecls couple).sources.map Source.content =
      failing.sources.map Source.content := rfl
  obtain rfl := caching_transparent.2.2 used (show (Loader.ofDecls couple).cache = ∅ from rfl) same
    ends ends'
  exact ⟨analysis, after, after', fails, ends, ends'⟩

end ClassLinker
