import ClassLinker.Analysis.Exports
import ClassLinker.Analysis.Inheritance
import ClassLinker.Analysis.Propagation
import ClassLinker.Loader

/-!
# Running an analysis

`analyze` starts from requirements and the entry points of a loader. It works off all tasks, then
loads the summaries of all classes that have come to be needed and links what it can, and so on
until nothing is left to do.

* `State.receive` takes in the summary of a class, and `State.loadWanted` those of all classes
  wanted, in the order in which they were asked for;
* `State.step` does one task or loads the classes wanted, and `State.settle` makes steps until
  nothing is left to do;
* `stepBudget` is more than the number of steps that any run takes: the classes and methods that a
  run can meet are those named in requirements and summaries, and each of them gives rise to tasks
  at most once for every way of using it.

The analysis is refused if the root class is missing or has parents, and fails if some summary
cannot be loaded.
-/

namespace ClassLinker

/-- Why an analysis has no result. -/
inductive AnalysisFailure where
  | load (error : LoadError)
  /-- The steps allowed were not enough. -/
  | outOfSteps
deriving DecidableEq

namespace State

/-- Takes in the summary of a class, or that it does not exist. -/
def receive (state : State) (name : ClassName) (summary : Option ClassSummary) : State :=
  let parked :=
    match state.status? name with
    | some (.awaited parked) => parked
    | _ => []
  let loaded := state.setStatus name (.loaded summary parked)
  { loaded with unlinked := loaded.unlinked ++ [name] }

/-- Takes in the answers for several classes in turn. The first error counts. -/
def receiveAll (state : State) :
    List (ClassName × Except LoadError (Option ClassSummary)) → Except LoadError State
  | [] => .ok state
  | (_, .error error) :: _ => .error error
  | (name, .ok summary) :: rest => (state.receive name summary).receiveAll rest

/-- Loads the classes that are wanted and links what can be linked. -/
def loadWanted (state : State) (loader : Loader) : Except LoadError State × Loader :=
  let (answers, loader) := loader.loadSummaries state.wanted
  let received := { state with wanted := [] }.receiveAll (state.wanted.zip answers)
  (received.map linkAvailable, loader)

/-- Tells whether nothing is left to do. -/
def isSettled (state : State) : Bool :=
  state.work.isEmpty && state.wanted.isEmpty

/-- Does the first task, or loads the classes that are wanted if there is no task. -/
def step (state : State) (loader : Loader) : Except LoadError State × Loader :=
  match state.work with
  | task :: rest => (.ok ({ state with work := rest }.perform task), loader)
  | [] => state.loadWanted loader

/-- Makes steps until nothing is left to do, at most the given number of them. -/
def settle : Nat → State → Loader → Except AnalysisFailure State × Loader
  | 0, state, loader => (if state.isSettled then .ok state else .error .outOfSteps, loader)
  | steps + 1, state, loader =>
    if state.isSettled then (.ok state, loader)
    else
      match state.step loader with
      | (.ok state, loader) => settle steps state loader
      | (.error error, loader) => (.error (.load error), loader)

/-- The classes of a settled analysis. -/
def linkedClasses (state : State) : Std.ExtTreeMap ClassName ClassRecord :=
  state.table.filterMap fun _ status => status.record?

/-- The result of a settled analysis. -/
def result (state : State) : Analysis :=
  let checked := state.checkExports
  .ofErrors checked.linkedClasses checked.errors

end State

/-! ### How many steps a run can take -/

/-- The number of classes, methods, exports and demands that a summary mentions. -/
def ClassSummary.weight (summary : ClassSummary) : Nat :=
  1 + summary.parents.length + summary.fieldClasses.length + summary.methods.length +
    summary.exports.length + (summary.allDemands.flatMap Demands.toList).length

/-- The number of entry points of a loader, and of what its summaries mention. -/
def Loader.weight (loader : Loader) : Nat :=
  loader.summaries.foldr (fun summary rest => summary.weight + rest)
    (loader.sources.flatMap Source.entryPoints).length

/-- The number of steps that a run is allowed. With `n` mentions there are at most `n + 1` classes
and `n + 2` method names, hence less than `6 * (n + 2) ^ 2` methods, none of which gives rise to
more than `n + 2` tasks. -/
def stepBudget (loader : Loader) (requirement : Requirement) : Nat :=
  let mentions := loader.weight + (requirement.tasks false).length + 8
  mentions * mentions * mentions * mentions

/-! ### Analyses -/

/-- Tells whether a summary is that of a root class: an ordinary class without parents. -/
def ClassSummary.isRoot (summary : ClassSummary) : Bool :=
  summary.kind = .plain ∧ summary.superClass = none ∧ summary.interfaces = []

/-- The state in which a run begins, with the root class linked. -/
def State.start (allowForwarders : Bool) (root : ClassSummary) (requirement : Requirement)
    (entryPoints : List ClassName) : State :=
  let state : State := { allowForwarders }
  let rooted := (state.receive .object (some root)).linkAvailable
  rooted.addTasks (requirement.tasks false ++
    entryPoints.map fun cls => { cls, action := .enter, cause := .exports })

/-- Analyzes the classes of a loader. -/
def analyze (allowForwarders : Bool) (requirement : Requirement) (loader : Loader) :
    Except AnalysisFailure Analysis × Loader :=
  let entryPoints := loader.entryPoints
  if requirement.isEmpty && entryPoints.isEmpty then (.ok {}, loader)
  else
    match loader.loadSummary .object with
    | (.error error, loader) => (.error (.load error), loader)
    -- Without a proper root class nothing else is looked at.
    | (.ok none, loader) => (.ok { errors := [.missingRootClass] }, loader)
    | (.ok (some root), loader) =>
      if !root.isRoot then (.ok { errors := [.invalidRootClass] }, loader)
      else
        let steps := stepBudget loader requirement
        let (settled, loader) :=
          (State.start allowForwarders root requirement entryPoints).settle steps loader
        (settled.map State.result, loader)

end ClassLinker
