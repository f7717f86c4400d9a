import ClassLinker.Proofs.Loading

/-!
# Where a chain of sources answers from

A source can say in two ways that it does not have the summary of a class, and in one way that it
does not have the declaration. `Search.IsFirstPresent` tells what a lookup is to do: it answers with
the first source that does not say that the class is absent, and asks no source after that one.

* Declarations are always looked up like that (`Chain.isFirstPresent_loadDecl`).
* A lookup of a summary ends at a source that reports the class as not found, although a later one
  can have it (`Chain.IsCutShort`). Only then do the two lookups part
  (`lookups_alike_iff`).
-/

namespace ClassLinker

variable {σ α : Type} {cls : ClassName} {source : σ} {sources others : List σ} {index : Nat}

/-! ### What answers say -/

/-- An answer to a request for a summary says that there is no such class. -/
def isAbsentSummary : Except LoadError (Option ClassSummary) → Bool
  | .ok none | .error (.notFound _) => true
  | _ => false

/-- An answer to a request for a declaration says that there is no such class. -/
def isAbsentDecl : Except LoadError VersionedDecl → Bool
  | .error (.notFound _) => true
  | _ => false

/-- An answer is no error, but holds nothing. -/
def isNothing : Except LoadError (Option α) → Bool
  | .ok none => true
  | _ => false

theorem isNothing_iff {answer : Except LoadError (Option α)} :
    isNothing answer = true ↔ answer = .ok none := by
  rcases answer with _ | _ | _ <;> simp [isNothing]

theorem isAbsentSummary_iff {answer : Except LoadError (Option ClassSummary)} :
    isAbsentSummary answer = true ↔
      answer = .ok none ∨ ∃ other, answer = .error (.notFound other) := by
  rcases answer with (_ | _ | _ | _) | _ | _ <;> simp [isAbsentSummary]

theorem isNothing_passNotFound (answer : Except LoadError VersionedDecl) :
    isNothing (Chain.passNotFound answer) = isAbsentDecl answer := by
  rcases answer with (_ | _ | _ | _) | _ <;> rfl

/-! ### What a lookup is to do -/

/-- The first of some sources whose answer does not say that the class is absent. -/
def firstPresent? (ask : σ → Except LoadError α × σ) (isAbsent : Except LoadError α → Bool)
    (sources : List σ) : Option σ :=
  sources.find? fun source => !isAbsent (ask source).1

/-- How many sources are asked until one does not say that the class is absent. -/
def askedCount (ask : σ → Except LoadError α × σ) (isAbsent : Except LoadError α → Bool)
    (sources : List σ) : Nat :=
  min sources.length (sources.findIdx (fun source => !isAbsent (ask source).1) + 1)

namespace Search

/-- The search has the answer of the first source that does not say that the class is absent, or
`missing` if all of them do. The sources up to that one have been asked, once each and in order, and
no other. -/
structure IsFirstPresent (found : Search σ α) (kind : RequestKind) (cls : ClassName)
    (ask : σ → Except LoadError α × σ) (isAbsent : Except LoadError α → Bool)
    (missing : Except LoadError α) (index : Nat) (sources : List σ) : Prop where
  result : found.result =
    (firstPresent? ask isAbsent sources).elim missing fun source => (ask source).1
  requests : found.requests =
    (List.range' index (askedCount ask isAbsent sources)).map fun i => ⟨i, kind, cls⟩
  sources : found.sources =
    (sources.take (askedCount ask isAbsent sources)).map (fun source => (ask source).2) ++
      sources.drop (askedCount ask isAbsent sources)

/-- The position of the source that the result is from, unless the class is absent. -/
def origin? (found : Search σ α) (isAbsent : Except LoadError α → Bool) : Option Nat :=
  if isAbsent found.result then none else found.requests.getLast?.map Request.source

end Search

/-- Both lookups of a class answer with the first source that does not say that the class is absent,
and so from the same source if each says the same of the summary and of the declaration. The other
sources are the same ones at the time of the second lookup. -/
structure Answering.LooksUpAlike (answering : Answering σ) (cls : ClassName) (sources : List σ) :
    Prop where
  summary : (Chain.loadSummary answering cls sources).IsFirstPresent .summary cls
    (answering.summary cls) isAbsentSummary (.ok none) 0 sources
  decl : (Chain.loadDecl answering cls sources).IsFirstPresent .decl cls
    (answering.decl cls) isAbsentDecl (.error (.notFound cls)) 0 sources
  coherent : ∀ others, List.Forall₂ (fun source other =>
      isAbsentDecl (answering.decl cls other).1 = isAbsentSummary (answering.summary cls source).1)
        sources others →
    (Chain.loadDecl answering cls others).origin? isAbsentDecl =
      (Chain.loadSummary answering cls sources).origin? isAbsentSummary

/-- A source reports the class as not found when it is asked for the summary, and those before it
say that they do not have it. -/
def Chain.IsCutShort (answering : Answering σ) (cls : ClassName) (sources : List σ) : Prop :=
  ∃ before source after other, sources = before ++ source :: after ∧
    (∀ earlier ∈ before, (answering.summary cls earlier).1 = .ok none) ∧
      (answering.summary cls source).1 = .error (.notFound other)

/-! ### What the lookups do -/

section

variable {ask : σ → Except LoadError α × σ} {isAbsent : Except LoadError α → Bool}

theorem firstPresent?_of_absent (absent : isAbsent (ask source).1 = true) :
    firstPresent? ask isAbsent (source :: sources) = firstPresent? ask isAbsent sources := by
  simp [firstPresent?, absent]

theorem firstPresent?_of_present (present : isAbsent (ask source).1 = false) :
    firstPresent? ask isAbsent (source :: sources) = some source := by
  simp [firstPresent?, present]

theorem askedCount_of_absent (absent : isAbsent (ask source).1 = true) :
    askedCount ask isAbsent (source :: sources) = askedCount ask isAbsent sources + 1 := by
  simp [askedCount, List.findIdx_cons, absent, Nat.add_min_add_right]

theorem askedCount_of_present (present : isAbsent (ask source).1 = false) :
    askedCount ask isAbsent (source :: sources) = 1 := by
  simp [askedCount, List.findIdx_cons, present]

end

namespace Chain

variable {answering : Answering σ}

theorem search_of_nothing {kind : RequestKind} {ask : σ → Except LoadError (Option α) × σ}
    (nothing : isNothing (ask source).1 = true) :
    search kind cls ask index (source :: sources) =
      let later := search kind cls ask (index + 1) sources
      ⟨later.result, (ask source).2 :: later.sources, ⟨index, kind, cls⟩ :: later.requests⟩ := by
  generalize answers : ask source = answer at nothing
  obtain ⟨_ | _ | _, after⟩ := answer
  · cases nothing
  · simp only [search, answers]
  · cases nothing

theorem search_of_something {kind : RequestKind} {ask : σ → Except LoadError (Option α) × σ}
    (something : isNothing (ask source).1 = false) :
    search kind cls ask index (source :: sources) =
      ⟨(ask source).1, (ask source).2 :: sources, [⟨index, kind, cls⟩]⟩ := by
  generalize answers : ask source = answer at something
  obtain ⟨_ | _ | _, after⟩ := answer
  · simp only [search, answers]
  · cases something
  · simp only [search, answers]

/-- A search goes on exactly as long as the answers hold nothing. -/
theorem isFirstPresent_search (kind : RequestKind) (cls : ClassName)
    (ask : σ → Except LoadError (Option α) × σ) (index : Nat) (sources : List σ) :
    (search kind cls ask index sources).IsFirstPresent kind cls ask isNothing (.ok none) index
      sources := by
  induction sources generalizing index with
  | nil => exact ⟨rfl, rfl, rfl⟩
  | cons source rest ih =>
    obtain ⟨result, requests, sources⟩ := ih (index + 1)
    cases nothing : isNothing (ask source).1 with
    | true =>
      rw [search_of_nothing nothing]
      constructor
      · rw [firstPresent?_of_absent nothing]
        exact result
      · rw [askedCount_of_absent nothing]
        exact congrArg (_ :: ·) requests
      · rw [askedCount_of_absent nothing]
        exact congrArg (_ :: ·) sources
    | false =>
      rw [search_of_something nothing]
      constructor
      · rw [firstPresent?_of_present nothing]
        rfl
      · rw [askedCount_of_present nothing]
        rfl
      · rw [askedCount_of_present nothing]
        rfl

/-- The search for a declaration ends at the first source that has it or fails. -/
theorem isFirstPresent_loadDecl (answering : Answering σ) (cls : ClassName) (sources : List σ) :
    (loadDecl answering cls sources).IsFirstPresent .decl cls (answering.decl cls) isAbsentDecl
      (.error (.notFound cls)) 0 sources := by
  let passing := fun source => (answering.decl cls source).map passNotFound id
  have absent : ∀ source,
      isNothing (passing source).1 = isAbsentDecl (answering.decl cls source).1 :=
    fun source => isNothing_passNotFound _
  have first : firstPresent? passing isNothing sources =
      firstPresent? (answering.decl cls) isAbsentDecl sources := by
    simp only [firstPresent?, absent]
  have count : askedCount passing isNothing sources =
      askedCount (answering.decl cls) isAbsentDecl sources := by
    simp only [askedCount, absent]
  obtain ⟨result, requests, after⟩ := isFirstPresent_search .decl cls passing 0 sources
  rw [first] at result
  rw [count] at requests after
  refine ⟨?_, requests, after⟩
  simp only [loadDecl]
  rw [show (search .decl cls passing 0 sources).result = _ from result]
  cases found : firstPresent? (answering.decl cls) isAbsentDecl sources with
  | none => rfl
  | some source =>
    have present : isAbsentDecl (answering.decl cls source).1 = false := by
      simpa using List.find?_some found
    have passed : (passing source).1 = passNotFound (answering.decl cls source).1 := rfl
    simp only [Option.elim_some, passed]
    generalize (answering.decl cls source).1 = answer at present ⊢
    rcases answer with (_ | _ | _ | _) | _
    · cases present
    · rfl
    · rfl
    · rfl
    · rfl

/-! ### Lookups of summaries -/

theorem isCutShort_cons : IsCutShort answering cls (source :: sources) ↔
    (∃ other, (answering.summary cls source).1 = .error (.notFound other)) ∨
      (answering.summary cls source).1 = .ok none ∧ IsCutShort answering cls sources := by
  constructor
  · rintro ⟨before, ending, after, other, split, passes, reports⟩
    rcases List.cons_eq_append_iff.1 split with ⟨rfl, same⟩ | ⟨rest, rfl, rfl⟩
    · obtain ⟨rfl, _⟩ := List.cons.inj same
      exact .inl ⟨other, reports⟩
    · exact .inr ⟨passes _ List.mem_cons_self, rest, ending, after, other, rfl,
        fun earlier mem => passes earlier (List.mem_cons_of_mem _ mem), reports⟩
  · rintro (⟨other, reports⟩ | ⟨passes, before, ending, after, other, rfl, earlier, reports⟩)
    · exact ⟨[], source, sources, other, rfl, (fun _ mem => by cases mem), reports⟩
    · refine ⟨source :: before, ending, after, other, rfl, fun first mem => ?_, reports⟩
      rcases List.mem_cons.1 mem with rfl | mem
      · exact passes
      · exact earlier first mem

/-- A search for a summary that is cut short ends with the report that does so. -/
theorem isCutShort_iff : IsCutShort answering cls sources ↔
    ∃ other, (loadSummary answering cls sources).result = .error (.notFound other) := by
  rw [loadSummary, (isFirstPresent_search .summary cls (answering.summary cls) 0 sources).result]
  induction sources with
  | nil => simp [IsCutShort, firstPresent?]
  | cons source rest ih =>
    rw [isCutShort_cons]
    by_cases passes : (answering.summary cls source).1 = .ok none
    · rw [firstPresent?_of_absent (isNothing_iff.2 passes), ← ih, passes]
      simp
    · rw [firstPresent?_of_present (Bool.eq_false_iff.2 (passes ∘ isNothing_iff.1))]
      simp [passes]

/-- If the search for a summary is not cut short, it ends at the first source that has the summary
or fails. -/
theorem isFirstPresent_loadSummary (whole : ¬ IsCutShort answering cls sources) :
    (loadSummary answering cls sources).IsFirstPresent .summary cls (answering.summary cls)
      isAbsentSummary (.ok none) 0 sources := by
  have same : firstPresent? (answering.summary cls) isNothing sources =
        firstPresent? (answering.summary cls) isAbsentSummary sources ∧
      askedCount (answering.summary cls) isNothing sources =
        askedCount (answering.summary cls) isAbsentSummary sources := by
    induction sources with
    | nil => exact ⟨rfl, rfl⟩
    | cons source rest ih =>
      rw [isCutShort_cons, not_or] at whole
      obtain ⟨unreported, whole⟩ := whole
      by_cases passes : (answering.summary cls source).1 = .ok none
      · have nothing := isNothing_iff.2 passes
        have absent := isAbsentSummary_iff.2 (.inl passes)
        obtain ⟨first, count⟩ := ih fun short => whole ⟨passes, short⟩
        rw [firstPresent?_of_absent nothing, firstPresent?_of_absent absent,
          askedCount_of_absent nothing, askedCount_of_absent absent, first, count]
        exact ⟨rfl, rfl⟩
      · have something := Bool.eq_false_iff.2 (passes ∘ isNothing_iff.1)
        have present := Bool.eq_false_iff.2 fun absent =>
          (isAbsentSummary_iff.1 absent).elim passes unreported
        rw [firstPresent?_of_present something, firstPresent?_of_present present,
          askedCount_of_present something, askedCount_of_present present]
        exact ⟨rfl, rfl⟩
  obtain ⟨result, requests, after⟩ :=
    isFirstPresent_search .summary cls (answering.summary cls) 0 sources
  rw [same.1] at result
  rw [same.2] at requests after
  exact ⟨result, requests, after⟩

/-- A lookup of a summary that ends at the first source which has it or fails is not cut short. -/
theorem not_isCutShort (present : (loadSummary answering cls sources).IsFirstPresent .summary cls
    (answering.summary cls) isAbsentSummary (.ok none) 0 sources) :
    ¬ IsCutShort answering cls sources := by
  intro short
  obtain ⟨other, reports⟩ := isCutShort_iff.1 short
  rw [present.result] at reports
  cases found : firstPresent? (answering.summary cls) isAbsentSummary sources with
  | none =>
    rw [found] at reports
    cases reports
  | some source =>
    rw [found] at reports
    have reports : (answering.summary cls source).1 = .error (.notFound other) := reports
    have present : isAbsentSummary (answering.summary cls source).1 = false := by
      simpa using List.find?_some found
    rw [isAbsentSummary_iff.2 (.inr ⟨other, reports⟩)] at present
    cases present

end Chain

/-! ### Where answers come from -/

/-- The result comes from the first source that does not say that the class is absent. -/
theorem Search.IsFirstPresent.origin?_eq {found : Search σ α} {kind : RequestKind}
    {ask : σ → Except LoadError α × σ} {isAbsent : Except LoadError α → Bool}
    {missing : Except LoadError α} (present : found.IsFirstPresent kind cls ask isAbsent missing 0
      sources) (absent : isAbsent missing = true) :
    found.origin? isAbsent = sources.findIdx? fun source => !isAbsent (ask source).1 := by
  unfold Search.origin?
  rw [present.result, present.requests]
  cases first : firstPresent? ask isAbsent sources with
  | none =>
    have all := List.find?_eq_none.1 first
    simp only [Option.elim_none, absent, if_true]
    exact (List.findIdx?_eq_none_iff.2 fun source mem => by simpa using all source mem).symm
  | some source =>
    have has : isAbsent (ask source).1 = false := by simpa using List.find?_some first
    have mem := List.mem_of_find?_eq_some first
    have inside : sources.findIdx (fun source => !isAbsent (ask source).1) < sources.length :=
      List.findIdx_lt_length_of_exists ⟨source, mem, by simp [has]⟩
    simp only [Option.elim_some, has, Bool.false_eq_true, if_false]
    rw [askedCount, Nat.min_eq_right inside, List.range'_concat, List.map_append,
      List.map_singleton, List.getLast?_concat]
    rw [List.findIdx?_eq_some_iff_findIdx_eq.2 ⟨inside, rfl⟩]
    simp

/-- Where each source says the same of the summary and of the declaration, the first one to have
either has the other. -/
theorem findIdx?_eq_of_coherent {answering : Answering σ}
    (coherent : List.Forall₂ (fun source other =>
      isAbsentDecl (answering.decl cls other).1 = isAbsentSummary (answering.summary cls source).1)
        sources others) :
    others.findIdx? (fun other => !isAbsentDecl (answering.decl cls other).1) =
      sources.findIdx? fun source => !isAbsentSummary (answering.summary cls source).1 := by
  induction coherent with
  | nil => rfl
  | cons same _ ih => rw [List.findIdx?_cons, List.findIdx?_cons, same, ih]

/-- The two lookups of a class are alike as long as that of the summary is not cut short. -/
theorem Chain.looksUpAlike_iff {answering : Answering σ} :
    answering.LooksUpAlike cls sources ↔ ¬ IsCutShort answering cls sources := by
  constructor
  · exact fun alike => not_isCutShort alike.summary
  · intro whole
    have summary := isFirstPresent_loadSummary whole
    refine ⟨summary, isFirstPresent_loadDecl .., fun others coherent => ?_⟩
    rw [(isFirstPresent_loadDecl answering cls others).origin?_eq rfl, summary.origin?_eq rfl,
      findIdx?_eq_of_coherent coherent]

/-- A declaration is always looked up in all sources up to the first one that has it or fails, and a
summary is looked up alike unless a source before that reports the class as not found. Then this
report is the answer, whatever the sources after it have. -/
theorem lookups_alike_iff {σ : Type} (answering : Answering σ) (cls : ClassName)
    (sources : List σ) :
    (Chain.loadDecl answering cls sources).IsFirstPresent .decl cls (answering.decl cls)
        isAbsentDecl (.error (.notFound cls)) 0 sources ∧
      (answering.LooksUpAlike cls sources ↔ ¬ Chain.IsCutShort answering cls sources) ∧
      (Chain.IsCutShort answering cls sources ↔
        ∃ other, (Chain.loadSummary answering cls sources).result = .error (.notFound other)) :=
  ⟨Chain.isFirstPresent_loadDecl .., Chain.looksUpAlike_iff, Chain.isCutShort_iff⟩

/-- A source that does not have a class, and reports it as not found when it is asked for the
summary, and one that has the class. -/
def reportingFirst : List Source :=
  [{ faults := [⟨.summary, ⟨"A"⟩, .notFound ⟨"A"⟩, none⟩] },
    ({} : Source).insert (.ofMethods ⟨"A"⟩ .plain [.object] []) none]

/-- The declaration is found in the second source, but the summary is not, although each source says
the same of both. -/
theorem not_alike_reportingFirst :
    List.Forall₂ (fun source other => isAbsentDecl (Source.answering.decl ⟨"A"⟩ other).1 =
      isAbsentSummary (Source.answering.summary ⟨"A"⟩ source).1) reportingFirst reportingFirst ∧
    (Chain.loadDecl Source.answering ⟨"A"⟩ reportingFirst).origin? isAbsentDecl = some 1 ∧
    (Chain.loadSummary Source.answering ⟨"A"⟩ reportingFirst).origin? isAbsentSummary = none ∧
    ¬ Source.answering.LooksUpAlike ⟨"A"⟩ reportingFirst := by
  refine ⟨.cons (by decide +kernel) (.cons (by decide +kernel) .nil), by decide +kernel,
    by decide +kernel, fun alike => Chain.not_isCutShort alike.summary ?_⟩
  exact Chain.isCutShort_cons.2 (.inl ⟨⟨"A"⟩, by decide +kernel⟩)

end ClassLinker
