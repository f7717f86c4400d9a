import ClassLinker.Analysis.State
import ClassLinker.Graph

/-!
# Linking classes to their parents

A loaded class is linked once all its ancestors are loaded, parents first.

* `State.awaitParents` finds the ancestors of a loaded class that are not loaded and asks for those
  that nothing has asked for;
* `State.linkAbove` links a class and its loaded ancestors depth first. When a parent is found that
  lies on the path of classes being linked, the part of the path from that parent on is an
  inheritance cycle: its classes fail, and the search goes on below them;
* `State.linkOne` links a class whose parents are all linked or failed: it checks the parents
  against the kind of the class and computes the ancestors. A class with a failed parent fails.

A super class or interface of a wrong kind is an error, and the class is linked without it; a
parent that does not exist is an error too, but stays a parent.
-/

namespace ClassLinker

/-- The ancestors of a class, given the lists of ancestors of its parents in order: the class and
everything in those lists, each once. -/
def ancestorsOf (name : ClassName) (parents : List (List ClassName)) : List ClassName :=
  (name :: parents.flatten).eraseDups

/-- Tells whether a class may extend another, given the name and kind of that class. -/
def ClassKind.mayExtend (kind : ClassKind) (superClass : ClassName) (superKind : ClassKind) :
    Bool :=
  kind.mayExtendKind superKind || (kind.mayExtendObject && superClass = .object)

namespace State

/-- The parents that a loaded class names, the super class first. -/
def openParents (state : State) (name : ClassName) : List ClassName :=
  match state.status? name with
  | some (.loaded (some summary) _) => summary.parents
  | _ => []

/-- Tells whether a class is loaded but not linked. -/
def isLoaded (state : State) (name : ClassName) : Bool :=
  (state.status? name).any Status.isLoaded

/-- Tells whether a class is loaded, linked or failed. -/
def isAvailable (state : State) (name : ClassName) : Bool :=
  match state.status? name with
  | none | some (.awaited _) => false
  | some _ => true

/-- Every class in the table and every parent that a loaded class names. -/
def knownNames (state : State) : Std.ExtTreeSet ClassName :=
  let names := state.table.keys
  .ofList (names ++ names.flatMap state.openParents)

/-- The class and everything that it inherits from, as far as loaded, the last parent first. -/
def lineage (state : State) (name : ClassName) : List ClassName :=
  preorder (fun name => (state.openParents name).reverse) state.knownNames [name]

/-- Asks for the ancestors of a class that nothing has asked for, and tells whether none is
missing. -/
def awaitParents (state : State) (name : ClassName) : Bool × State :=
  let lineage := state.lineage name
  (lineage.all state.isAvailable, lineage.foldl State.request state)

/-! ### Checking parents -/

/-- The super class that a class is linked with, and the state with any error entered. -/
def checkSuperClass (state : State) (name : ClassName) (kind : ClassKind) :
    Option ClassName → Option ClassName × State
  | none =>
    if kind.needsSuperClass && name ≠ .object then
      (none, state.report (.missingSuperClass name kind (.cls name)))
    else (none, state)
  | some parent =>
    match state.class? parent with
    | none => (none, state)
    | some cls =>
      if !cls.isPresent then (some parent, state.report (.missingClass parent (.cls name)))
      else if kind.mayExtend parent cls.kind then (some parent, state)
      else
        (if kind.isOrdinary && name ≠ .object then some .object else none,
          state.report (.invalidSuperClass parent cls.kind name kind (.cls name)))

/-- The interfaces that a class is linked with, and the state with any errors entered. -/
def checkInterfaces (state : State) (name : ClassName) (kind : ClassKind) :
    List ClassName → List ClassName × State
  | [] => ([], state)
  | interface :: rest =>
    match state.class? interface with
    | none => state.checkInterfaces name kind rest
    | some cls =>
      if !cls.isPresent then
        let state := state.report (.missingClass interface (.cls name))
        let (kept, state) := state.checkInterfaces name kind rest
        (interface :: kept, state)
      else if cls.kind = kind.implementedKind then
        let (kept, state) := state.checkInterfaces name kind rest
        (interface :: kept, state)
      else
        let state := state.report (.invalidInterface interface cls.kind name kind (.cls name))
        state.checkInterfaces name kind rest

/-! ### Linking -/

/-- The ancestors of a linked class. -/
def ancestors (state : State) (name : ClassName) : List ClassName :=
  match state.class? name with
  | some cls => cls.ancestors
  | none => []

/-- Links a class that exists and has no failed parent. -/
def linkPresent (state : State) (name : ClassName) (summary : ClassSummary) : State :=
  let (superClass, state) := state.checkSuperClass name summary.kind summary.superClass
  let (interfaces, state) := state.checkInterfaces name summary.kind summary.interfaces
  state.setClass name { ClassRecord.ofSummary name summary with
    superClass
    interfaces
    ancestors := ancestorsOf name ((superClass.toList ++ interfaces).map state.ancestors) }

/-- Tells whether a class has failed. -/
def hasFailed (state : State) (name : ClassName) : Bool :=
  state.status? name = some .failed

/-- Links a loaded class whose parents are all linked or failed, and takes up its tasks. -/
def linkOne (state : State) (name : ClassName) : State :=
  match state.status? name with
  | some (.loaded none parked) => (state.setClass name (.absent name)).addTasks parked
  | some (.loaded (some summary) parked) =>
    if summary.parents.any state.hasFailed then state.setStatus name .failed
    else (state.linkPresent name summary).addTasks parked
  | _ => state

/-- Fails the classes of an inheritance cycle, given in order. -/
def failCycle (state : State) (classes : List ClassName) (closing : ClassName) : State :=
  (classes.foldl (fun state name => state.setStatus name .failed) state).report
    (.inheritanceCycle classes (.cls closing))

/-- Links those of the parents of a class that are loaded, by `visit`, and then the class. The path
leads from the class where linking has begun to the child of this one, innermost first. If the class
turns out to lie on a cycle that begins at a class of the path, that class is returned, and none of
the classes down to it is linked. -/
def linkParents (visit : ClassName → State → Option ClassName × State) (path : List ClassName)
    (name : ClassName) : List ClassName → State → Option ClassName × State
  | [], state => (none, state.linkOne name)
  | parent :: rest, state =>
    if !state.isLoaded parent then linkParents visit path name rest state
    else if parent ∈ name :: path then
      -- The parent is being linked further down the path, which closes a cycle.
      let below := (name :: path).takeWhile (· ≠ parent)
      (some parent, state.failCycle (parent :: below.reverse) parent)
    else
      match visit parent state with
      | (none, state) => linkParents visit path name rest state
      | (some start, state) =>
        -- The parents after one that begins a cycle are still linked.
        if start = parent then linkParents visit path name rest state
        else (some start, state)

/-- Links a class and its loaded ancestors. No path is longer than the table of classes, which
bounds the depth of the search. -/
def linkAbove : Nat → List ClassName → ClassName → State → Option ClassName × State
  | 0, _, _, state => (none, state)
  | depth + 1, path, name, state =>
    linkParents (linkAbove depth (name :: path)) path name (state.openParents name) state

/-- Links a loaded class if all its ancestors are available. -/
def linkIfReady (state : State) (name : ClassName) : State :=
  if state.isLoaded name then
    let (isReady, state) := state.awaitParents name
    if isReady then (linkAbove (state.table.size + 1) [] name state).2 else state
  else state

/-- Links every loaded class whose ancestors are available. -/
def linkAvailable (state : State) : State :=
  let linked := state.unlinked.foldl State.linkIfReady { state with unlinked := [] }
  { linked with unlinked := state.unlinked.filter linked.isLoaded }

end State

end ClassLinker
