import ClassLinker.Proofs.Hierarchy
import Mathlib.Logic.Relation

/-!
# What a loader knows

A request to a source can fail, but a source that answers always answers the same. So there is a
universe that a loader stands for, `Loader.knows`: every summary that is loaded is the one that this
universe tells (`Loader.knows_of_loadSummary`), and loading does not change the universe
(`Loader.Loads.knows`). `Loader.Declares` tells the declarations that it can answer with in the
course of loading.
-/

namespace ClassLinker

variable {α : Type} {cls other : ClassName} {loader : Loader} {source : Source}

/-- What is made of an answer comes from an answer. -/
theorem exists_of_map_eq_ok {ε β : Type} {make : α → β} {answer : Except ε α} {result : β}
    (made : answer.map make = .ok result) : ∃ value, answer = .ok value ∧ make value = result := by
  cases answer with
  | error => cases made
  | ok value => exact ⟨value, rfl, Except.ok.inj made⟩

/-- What is told of a result is told of an outcome that has a result. -/
theorem exists_of_toOption_map {ε β σ : Type} {outcome : Except ε α × σ} {tell : α → β} {answer : β}
    (told : outcome.1.toOption.map tell = some answer) :
    ∃ result after, outcome = (.ok result, after) ∧ tell result = answer := by
  obtain ⟨_ | result, after⟩ := outcome
  · cases told
  · exact ⟨result, after, rfl, Option.some.inj told⟩

/-! ### Sources -/

namespace Source

/-- The source without its faults. -/
def content (source : Source) : Source :=
  { source with faults := [] }

/-- A request uses up faults, but nothing else. -/
theorem content_request (source : Source) (kind : RequestKind) (cls : ClassName)
    (known : Except LoadError α) : (source.request kind cls known).2.content = source.content := by
  unfold request
  split <;> rfl

/-- An answer that is no error is what the source knows. -/
theorem eq_of_request {kind : RequestKind} {known : Except LoadError α} {answer : α}
    (answers : (source.request kind cls known).1 = .ok answer) : known = .ok answer := by
  unfold request at answers
  split at answers
  · cases answers
  · exact answers

theorem decl?_of_requestDecl {entry : VersionedDecl}
    (answers : (source.requestDecl cls).1 = .ok entry) : source.decl? cls = some entry := by
  have known := eq_of_request answers
  split at known <;> cases known
  assumption

end Source

/-! ### Searching the sources -/

namespace Chain

variable {kind : RequestKind} {ask : Source → Except LoadError (Option α) × Source}
variable {sources : List Source} {index : Nat}

/-- A declaration is passed on only if it is answered. -/
theorem passNotFound_eq_some {answer : Except LoadError α} {value : α} :
    passNotFound answer = .ok (some value) ↔ answer = .ok value := by
  rcases answer with (_ | _ | _ | _) | _ <;> simp [passNotFound]

/-- What asking does not change about the sources, a search does not change about any of them. -/
theorem map_search {β : Type} {tell : Source → β}
    (kept : ∀ source ∈ sources, tell (ask source).2 = tell source) :
    (search kind cls ask index sources).sources.map tell = sources.map tell := by
  induction sources generalizing index with
  | nil => rfl
  | cons source rest ih =>
    obtain ⟨same, kept⟩ := List.forall_mem_cons.1 kept
    unfold search
    split <;> rename_i h <;> rw [h] at same <;>
      simp only [List.map_cons, same, ih kept]

/-- A search that does not fail gives the answer of the first source that has one. -/
theorem result_search {known : Source → Option α} {answer : Option α}
    (correct : ∀ source answer, (ask source).1 = .ok answer → answer = known source)
    (found : (search kind cls ask index sources).result = .ok answer) :
    answer = sources.findSome? known := by
  induction sources generalizing index with
  | nil => cases found; rfl
  | cons source rest ih =>
    unfold search at found
    split at found
    · rename_i h
      have passes := correct source none (congrArg Prod.fst h)
      rw [List.findSome?_cons, ← passes]
      exact ih found
    · rename_i passes h
      have answers : (ask source).1 = .ok answer := (congrArg Prod.fst h).trans found
      have known := correct source answer answers
      cases answer with
      | none => exact (passes found).elim
      | some answer => rw [List.findSome?_cons, ← known]

/-- What a search finds is the answer of some source. -/
theorem exists_of_search {answer : α}
    (found : (search kind cls ask index sources).result = .ok (some answer)) :
    ∃ source ∈ sources, (ask source).1 = .ok (some answer) := by
  induction sources generalizing index with
  | nil => cases found
  | cons source rest ih =>
    unfold search at found
    split at found
    · obtain ⟨later, mem, answers⟩ := ih found
      exact ⟨later, List.mem_cons_of_mem _ mem, answers⟩
    · rename_i h
      exact ⟨source, List.mem_cons_self, (congrArg Prod.fst h).trans found⟩

end Chain

/-! ### Loaders -/

/-- A method without parameters. -/
def MethodDecl.plain (space : Namespace) (name : MethodName) (body : Option Expr) : MethodDecl where
  space := space
  name := name
  params := []
  result := .void
  body := body

/-- A class with methods and nothing else. -/
def ClassDecl.ofMethods (name : ClassName) (kind : ClassKind) (parents : List ClassName)
    (methods : List MethodDecl) : ClassDecl where
  name := name
  kind := kind
  superClass := if kind.needsSuperClass then parents.head? else none
  interfaces := if kind.needsSuperClass then parents.tail else parents
  fields := []
  methods := methods
  jsConstructor := none
  exportedMembers := []
  exports := []

namespace Loader

/-- The summary that loading a class gives, if nothing fails. -/
def knows (loader : Loader) : Universe := fun cls =>
  match loader.cached? cls with
  | some known => known
  | none => loader.sources.findSome? fun source => source.summary? cls

/-- Some source has this declaration of the class. -/
def Holds (loader : Loader) (cls : ClassName) (entry : VersionedDecl) : Prop :=
  ∃ source ∈ loader.sources, source.decl? cls = some entry

/-- A summary or a declaration is asked for, whatever the answer. -/
inductive Load (loader : Loader) : Loader → Prop
  | summary (cls : ClassName) : Load loader (loader.loadSummary cls).2
  | decl (cls : ClassName) : Load loader (loader.loadDecl cls).2

/-- Some summaries and declarations are asked for. -/
abbrev Loads : Loader → Loader → Prop :=
  Relation.ReflTransGen Load

/-- In the course of loading, asking for the declaration of the class can give this one. -/
def Declares (loader : Loader) (cls : ClassName) (entry : VersionedDecl) : Prop :=
  ∃ later, loader.Loads later ∧ (later.loadDecl cls).1 = .ok entry

theorem findSome?_summary? {sources others : List Source}
    (same : sources.map Source.content = others.map Source.content) (cls : ClassName) :
    sources.findSome? (fun source => source.summary? cls) =
      others.findSome? fun source => source.summary? cls := by
  have through : ∀ sources : List Source,
      sources.findSome? (fun source => source.summary? cls) =
        (sources.map Source.content).findSome? fun source => source.summary? cls := by
    intro sources
    rw [List.findSome?_map]
    rfl
  rw [through, through others, same]

theorem holds_congr {after : Loader}
    (same : after.sources.map Source.content = loader.sources.map Source.content)
    {entry : VersionedDecl} : after.Holds cls entry ↔ loader.Holds cls entry := by
  have through : ∀ loader : Loader, loader.Holds cls entry ↔
      ∃ source ∈ loader.sources.map Source.content, source.decl? cls = some entry := by
    intro loader
    simp only [Holds, List.mem_map, exists_exists_and_eq_and]
    rfl
  rw [through, through loader, same]

/-- A class with a known answer is not asked for. -/
theorem loadSummary_of_cached {known : Option ClassSummary}
    (cached : loader.cached? cls = some known) : loader.loadSummary cls = (.ok known, loader) := by
  unfold cached? at cached
  simp only [loadSummary, Caching.load, cached]
  rfl

/-- Any other class is searched for, and the answer is kept. -/
theorem loadSummary_of_new (new : loader.cached? cls = none) :
    let found := Chain.loadSummary Source.answering cls loader.sources
    loader.loadSummary cls = (found.result,
      { loader.after found with cache := loader.cache.insert cls found.result.toOption }) := by
  unfold cached? at new
  simp only [loadSummary, Caching.load, new]
  rfl

theorem content_loadSummary (cls : ClassName) (loader : Loader) :
    (loader.loadSummary cls).2.sources.map Source.content =
      loader.sources.map Source.content := by
  cases cached : loader.cached? cls with
  | some known => rw [loadSummary_of_cached cached]
  | none =>
    rw [loadSummary_of_new cached]
    exact Chain.map_search fun source _ => source.content_request ..

/-- A summary that is loaded is the one that the loader knows. -/
theorem knows_of_loadSummary {summary : Option ClassSummary}
    (answers : (loader.loadSummary cls).1 = .ok summary) : summary = loader.knows cls := by
  unfold knows
  cases cached : loader.cached? cls with
  | some known =>
    rw [loadSummary_of_cached cached] at answers
    exact (Except.ok.inj answers).symm
  | none =>
    rw [loadSummary_of_new cached] at answers
    refine Chain.result_search (fun source answer answers => ?_) answers
    exact (Except.ok.inj (Source.eq_of_request answers)).symm

theorem cached?_insert (loader : Loader) (requests : List Request) (sources : List Source)
    (cls other : ClassName) (answer : Option (Option ClassSummary)) :
    cached? { loader with sources, requests, cache := loader.cache.insert cls answer } other =
      if cls = other then answer else loader.cached? other := by
  simp only [cached?, Caching.cached?, caching, Std.ExtTreeMap.getElem?_insert,
    Std.compare_eq_iff_eq]
  split <;> rfl

/-- Loading a summary does not change what the loader knows. -/
theorem knows_loadSummary (cls : ClassName) (loader : Loader) :
    (loader.loadSummary cls).2.knows = loader.knows := by
  funext other
  have sources := findSome?_summary? (content_loadSummary cls loader)
  have answers : ∀ {summary}, (loader.loadSummary cls).1 = .ok summary →
      summary = loader.knows cls := knows_of_loadSummary
  cases cached : loader.cached? cls with
  | some known =>
    rw [loadSummary_of_cached cached]
  | none =>
    have cache : (loader.loadSummary cls).2.cached? other =
        if cls = other then (loader.loadSummary cls).1.toOption else loader.cached? other := by
      rw [loadSummary_of_new cached]
      exact cached?_insert ..
    unfold knows
    rw [cache, sources]
    by_cases same : cls = other
    · subst same
      rw [if_pos rfl, cached]
      cases h : (loader.loadSummary cls).1 with
      | error => rfl
      | ok summary =>
        have known := answers h
        unfold knows at known
        rw [cached] at known
        exact known
    · rw [if_neg same]

theorem loadSummaries_spec (names : List ClassName) (loader : Loader) :
    loader.Loads (loader.loadSummaries names).2 ∧
      (loader.loadSummaries names).1.length = names.length ∧
      ∀ name summary, (name, .ok summary) ∈ names.zip (loader.loadSummaries names).1 →
        summary = loader.knows name := by
  induction names generalizing loader with
  | nil => exact ⟨.refl, rfl, fun _ _ mem => by cases mem⟩
  | cons first rest ih =>
    obtain ⟨loads, length, correct⟩ := ih (loader.loadSummary first).2
    refine ⟨.head (.summary first) loads, congrArg (· + 1) length, fun name summary mem => ?_⟩
    rcases List.mem_cons.1 mem with same | mem
    · obtain ⟨rfl, answers⟩ := Prod.mk.inj same
      exact knows_of_loadSummary answers.symm
    · rw [← knows_loadSummary first loader]
      exact correct name summary mem

/-! ### Declarations -/

theorem content_loadDecl (cls : ClassName) (loader : Loader) :
    (loader.loadDecl cls).2.sources.map Source.content = loader.sources.map Source.content :=
  Chain.map_search fun source _ => source.content_request ..

/-- Loading a declaration does not change what the loader knows. -/
theorem knows_loadDecl (cls : ClassName) (loader : Loader) :
    (loader.loadDecl cls).2.knows = loader.knows := by
  funext other
  have sources := findSome?_summary? (content_loadDecl cls loader) other
  unfold knows
  rw [sources]
  rfl

/-- A declaration that is loaded is that of some source. -/
theorem holds_of_loadDecl {entry : VersionedDecl} (loads : (loader.loadDecl cls).1 = .ok entry) :
    loader.Holds cls entry := by
  simp only [loadDecl, Chain.loadDecl] at loads
  split at loads
  · rename_i answers
    cases loads
    obtain ⟨source, mem, answers⟩ := Chain.exists_of_search answers
    exact ⟨source, mem, Source.decl?_of_requestDecl (Chain.passNotFound_eq_some.1 answers)⟩
  · cases loads
  · cases loads

theorem Loads.content {after : Loader} (loads : loader.Loads after) :
    after.sources.map Source.content = loader.sources.map Source.content := by
  induction loads with
  | refl => rfl
  | tail _ load ih =>
    cases load with
    | summary cls => exact (content_loadSummary cls _).trans ih
    | decl cls => exact (content_loadDecl cls _).trans ih

/-- Loading does not change what the loader knows. -/
theorem Loads.knows {after : Loader} (loads : loader.Loads after) :
    after.knows = loader.knows := by
  induction loads with
  | refl => rfl
  | tail _ load ih =>
    cases load with
    | summary cls => exact (knows_loadSummary cls _).trans ih
    | decl cls => exact (knows_loadDecl cls _).trans ih

/-- Loading does not change the entry points. -/
theorem Loads.entryPoints_eq {after : Loader} (loads : loader.Loads after) :
    after.entryPoints = loader.entryPoints := by
  have through : ∀ sources : List Source, sources.flatMap Source.entryPoints =
      (sources.map Source.content).flatMap Source.entryPoints := by
    intro sources
    rw [List.flatMap_map]
    rfl
  rw [Loader.entryPoints, Loader.entryPoints, Chain.entryPoints, Chain.entryPoints, through,
    through loader.sources, loads.content]

theorem Declares.holds {entry : VersionedDecl} (declares : loader.Declares cls entry) :
    loader.Holds cls entry := by
  obtain ⟨later, loads, answers⟩ := declares
  exact (holds_congr loads.content).1 (holds_of_loadDecl answers)

theorem Declares.of_loads {after : Loader} {entry : VersionedDecl} (loads : loader.Loads after)
    (declares : after.Declares cls entry) : loader.Declares cls entry := by
  obtain ⟨later, more, answers⟩ := declares
  exact ⟨later, loads.trans more, answers⟩

/-- The declarations of several classes are loaded in turn. -/
theorem loadDecls_spec {names : List ClassName} {entries : List VersionedDecl}
    (loads : (loader.loadDecls names).1 = .ok entries) :
    loader.Loads (loader.loadDecls names).2 ∧ List.Forall₂ loader.Declares names entries := by
  induction names generalizing loader entries with
  | nil =>
    cases loads
    exact ⟨.refl, .nil⟩
  | cons first rest ih =>
    have step : loader.Load (loader.loadDecl first).2 := .decl first
    have declares : ∀ entry, (loader.loadDecl first).1 = .ok entry → loader.Declares first entry :=
      fun entry answers => ⟨loader, .refl, answers⟩
    unfold loadDecls at loads ⊢
    generalize loader.loadDecl first = loaded at loads step declares
    obtain ⟨_ | entry, later⟩ := loaded
    · cases loads
    · obtain ⟨more, answers, rfl⟩ := exists_of_map_eq_ok loads
      obtain ⟨rest_loads, listed⟩ := ih answers
      exact ⟨.head step rest_loads, .cons (declares entry rfl)
        (listed.imp fun _ _ declares => .of_loads (.single step) declares)⟩

/-- What inserting a class does not change about a source, inserting some does not change either. -/
theorem tell_foldl_insert {β : Type} {tell : Source → β}
    (kept : ∀ source decl, tell (source.insert decl none) = tell source) (decls : List ClassDecl)
    (source : Source) :
    tell (decls.foldl (fun source decl => source.insert decl none) source) = tell source := by
  induction decls generalizing source with
  | nil => rfl
  | cons first rest ih => exact (ih _).trans (kept source first)

/-- A loader with one source that never fails. -/
def ofDecls (decls : List ClassDecl) : Loader where
  sources := [decls.foldl (fun source decl => source.insert decl none) {}]

/-- Such a loader knows nothing but the declarations that it has been given. -/
theorem mem_of_holds_ofDecls {decls : List ClassDecl} {entry : VersionedDecl}
    (holds : (ofDecls decls).Holds cls entry) :
    entry.decl ∈ decls ∧ entry.decl.name = cls := by
  obtain ⟨source, mem, known⟩ := holds
  obtain rfl := List.mem_singleton.1 mem
  have grown : ∀ (decls : List ClassDecl) (source : Source),
      (decls.foldl (fun source decl => source.insert decl none) source).decl? cls = some entry →
        source.decl? cls = some entry ∨ entry.decl ∈ decls ∧ entry.decl.name = cls := by
    intro decls
    induction decls with
    | nil => exact fun _ h => .inl h
    | cons first rest ih =>
      intro source h
      rcases ih _ h with h | ⟨mem, name⟩
      · simp only [Source.decl?, Source.insert, Std.ExtTreeMap.getElem?_insert,
          Std.compare_eq_iff_eq] at h
        split at h
        · cases h
          exact .inr ⟨List.mem_cons_self, ‹_›⟩
        · exact .inl h
      · exact .inr ⟨List.mem_cons_of_mem _ mem, name⟩
  refine (grown decls {} known).resolve_left fun h => ?_
  rw [Source.decl?, Std.ExtTreeMap.getElem?_empty] at h
  cases h

/-- Every summary that it knows is that of a declaration. -/
theorem knows_ofDecls (decls : List ClassDecl) (cls : ClassName) :
    (ofDecls decls).knows cls =
      ((decls.foldl (fun source decl => source.insert decl none) {} : Source).decl? cls).map
        fun entry => entry.decl.summary := by
  have given : (decls.foldl (fun source decl => source.insert decl none) {} :
      Source).givenSummaries = ∅ := tell_foldl_insert (fun _ _ => rfl) decls {}
  have cached : (ofDecls decls).cached? cls = none := by
    rw [cached?, Caching.cached?, show (ofDecls decls).caching.cache = ∅ from rfl,
      Std.ExtTreeMap.getElem?_empty]
    rfl
  unfold knows
  rw [cached]
  simp only [ofDecls, List.findSome?_singleton, Source.summary?, Source.decl?, given,
    Std.ExtTreeMap.getElem?_empty]

end Loader

end ClassLinker
