import ClassLinker.Chain

/-!
# Loading classes

A loader searches a chain of sources and remembers the summaries that it has found.

* `Loader.loadSummary` remembers the answers of the chain, as any `Caching` does;
* `Loader.loadDecl` searches for a declaration anew each time;
* `Loader.requests` is the list of all requests that the sources have got.
-/

namespace ClassLinker

namespace Chain

/-- Asks sources that have got some requests for the summary of a class. -/
def ask : Asking (List Source × List Request) := fun cls (sources, requests) =>
  let found := loadSummary Source.answering cls sources
  (found.result, found.sources, requests ++ found.requests)

/-- The classes to analyze even if nothing refers to them, each once. -/
def entryPoints (sources : List Source) : List ClassName :=
  (sources.flatMap Source.entryPoints).eraseDups

end Chain

/-- Sources together with the summaries found so far. A class is a key of `cache` as soon as its
summary has been requested, with no value until there is an answer. -/
structure Loader where
  sources : List Source
  cache : Std.ExtTreeMap ClassName (Option (Option ClassSummary)) := ∅
  requests : List Request := []

namespace Loader

/-- The sources with the requests that they have got, and the summaries found so far. -/
def caching (loader : Loader) : Caching (List Source × List Request) where
  source := (loader.sources, loader.requests)
  cache := loader.cache

/-- The answer that is kept for a class: its summary, or that it does not exist. -/
def cached? (loader : Loader) (cls : ClassName) : Option (Option ClassSummary) :=
  loader.caching.cached? cls

/-- The number of classes whose summary has ever been requested. -/
def requestedCount (loader : Loader) : Nat :=
  loader.caching.requestedCount

/-- The classes to analyze even if nothing refers to them. -/
def entryPoints (loader : Loader) : List ClassName :=
  Chain.entryPoints loader.sources

/-- The summaries of the sources and those that have been found so far. -/
def summaries (loader : Loader) : List ClassSummary :=
  loader.sources.flatMap Source.summaries ++
    loader.cache.toList.filterMap fun entry => entry.2.join

/-- The loader after a search. -/
def after {α : Type} (loader : Loader) (search : Search Source α) : Loader :=
  { loader with sources := search.sources, requests := loader.requests ++ search.requests }

/-- The summary of a class, from the cache or from the sources. -/
def loadSummary (cls : ClassName) (loader : Loader) :
    Except LoadError (Option ClassSummary) × Loader :=
  let (answer, later) := loader.caching.load Chain.ask cls
  (answer, { sources := later.source.1, requests := later.source.2, cache := later.cache })

/-- The summaries of several classes, all of which are requested even if some fail. -/
def loadSummaries :
    List ClassName → Loader → List (Except LoadError (Option ClassSummary)) × Loader
  | [], loader => ([], loader)
  | cls :: rest, loader =>
    let first := loader.loadSummary cls
    let later := loadSummaries rest first.2
    (first.1 :: later.1, later.2)

/-- The declaration of a class, which is never kept. -/
def loadDecl (cls : ClassName) (loader : Loader) : Except LoadError VersionedDecl × Loader :=
  let search := Chain.loadDecl Source.answering cls loader.sources
  (search.result, loader.after search)

/-- The declarations of several classes. The first error ends the loading. -/
def loadDecls : List ClassName → Loader → Except LoadError (List VersionedDecl) × Loader
  | [], loader => (.ok [], loader)
  | cls :: rest, loader =>
    match loader.loadDecl cls with
    | (.error error, loader) => (.error error, loader)
    | (.ok entry, loader) =>
      let later := loadDecls rest loader
      (later.1.map (entry :: ·), later.2)

/-- The loader with one more class in the source at a position. -/
def insert (loader : Loader) (index : Nat) (cls : ClassDecl) (version : Option Version) : Loader :=
  { loader with sources := loader.sources.modify index fun source => source.insert cls version }

end Loader

end ClassLinker
