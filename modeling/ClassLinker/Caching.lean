import ClassLinker.Source

/-!
# Remembering summaries

A `Caching σ` is anything that can be asked for the summaries of classes, in a state of type `σ`,
together with the answers that it has given. `Caching.load` asks for the summary of a class until
there is an answer, and keeps that, also that a class does not exist. It keeps no error, so the next
request after an error asks again.
-/

namespace ClassLinker

/-- What is answered when the summary of a class is asked for, and the state after that. -/
abbrev Asking (σ : Type) : Type :=
  ClassName → σ → Except LoadError (Option ClassSummary) × σ

/-- Something to ask for summaries, with the answers found so far. A class is a key of `cache` as
soon as its summary has been requested, with no value until there is an answer. -/
structure Caching (σ : Type) where
  source : σ
  cache : Std.ExtTreeMap ClassName (Option (Option ClassSummary)) := ∅

namespace Caching

variable {σ : Type}

/-- The answer that is kept for a class: its summary, or that it does not exist. -/
def cached? (caching : Caching σ) (cls : ClassName) : Option (Option ClassSummary) :=
  caching.cache[cls]?.join

/-- The summary of a class, from the cache or else by asking for it. -/
def load (ask : Asking σ) (cls : ClassName) (caching : Caching σ) :
    Except LoadError (Option ClassSummary) × Caching σ :=
  match caching.cached? cls with
  | some known => (.ok known, caching)
  | none =>
    let (answer, source) := ask cls caching.source
    -- The name becomes a key even if there is no answer.
    (answer, { source, cache := caching.cache.insert cls answer.toOption })

/-- The number of classes whose summary has ever been requested. -/
def requestedCount (caching : Caching σ) : Nat :=
  caching.cache.size

end Caching

end ClassLinker
