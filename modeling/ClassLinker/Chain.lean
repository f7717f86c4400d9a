import ClassLinker.Caching

/-!
# Searching a chain of sources

A class is looked for in several sources, one after the other. Nothing matters of a source but how
it answers, which `Answering` tells.

* `Chain.search` asks the sources in turn until one of them has an answer or fails;
* `Chain.loadSummary` and `Chain.loadDecl` search for the summary and the declaration of a class. A
  source that does not have the class is passed over; an error ends the search, but a declaration
  that is reported as not found is looked for in the next source.
-/

namespace ClassLinker

/-- A request that a source has got, by the position of the source. -/
structure Request where
  source : Nat
  kind : RequestKind
  cls : ClassName
deriving DecidableEq

/-- The end of a search: its result, the sources after it, and the requests that they got. -/
structure Search (σ α : Type) where
  result : Except LoadError α
  sources : List σ
  requests : List Request

/-- How sources answer the two requests for a class, in states of type `σ`. -/
structure Answering (σ : Type) where
  summary : Asking σ
  decl : ClassName → σ → Except LoadError VersionedDecl × σ

/-- How sources that hold classes in memory answer. -/
def Source.answering : Answering Source where
  summary cls source := source.requestSummary cls
  decl cls source := source.requestDecl cls

namespace Chain

variable {σ α : Type}

/-- Asks one source after the other, the first of them at position `index`, until one has an
answer or fails. The result is `none` if all of them pass. -/
def search (kind : RequestKind) (cls : ClassName) (ask : σ → Except LoadError (Option α) × σ) :
    Nat → List σ → Search σ (Option α)
  | _, [] => ⟨.ok none, [], []⟩
  | index, source :: rest =>
    match ask source with
    | (.ok none, source) =>
      let later := search kind cls ask (index + 1) rest
      ⟨later.result, source :: later.sources, ⟨index, kind, cls⟩ :: later.requests⟩
    | (answer, source) => ⟨answer, source :: rest, [⟨index, kind, cls⟩]⟩

/-- Searches for the summary of a class. -/
def loadSummary (answering : Answering σ) (cls : ClassName) (sources : List σ) :
    Search σ (Option ClassSummary) :=
  search .summary cls (answering.summary cls) 0 sources

/-- An answer, where a class that is reported as not found counts as one that the source does not
have. -/
def passNotFound : Except LoadError α → Except LoadError (Option α)
  | .ok answer => .ok (some answer)
  | .error (.notFound _) => .ok none
  | .error error => .error error

/-- Searches for the declaration of a class. It is an error if there is none. -/
def loadDecl (answering : Answering σ) (cls : ClassName) (sources : List σ) :
    Search σ VersionedDecl :=
  let found := search .decl cls (fun source => (answering.decl cls source).map passNotFound id) 0
    sources
  { found with
    result := match found.result with
      | .ok (some entry) => .ok entry
      | .ok none => .error (.notFound cls)
      | .error error => .error error }

end Chain

end ClassLinker
