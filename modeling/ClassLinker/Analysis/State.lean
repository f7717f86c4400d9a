import ClassLinker.Analysis.Record
import ClassLinker.Requirement

/-!
# The state of an analysis

The analysis works off a list of tasks, each of which does something with a class. A class goes
through the stages of `Status`: its summary is awaited, then loaded, and once all its ancestors
are known it is linked, unless an inheritance cycle lies among them and it fails. Tasks for a class
that is not linked yet are parked with it.

* `Requirement.tasks` and `Demands.tasks` are the tasks that requirements and code give rise to;
* `State.status?` and `State.class?` read the table of classes, `State.setClass` and
  `State.modifyClass` write it, and `State.request` asks for a summary.
-/

namespace ClassLinker

/-- Something to do with a class. -/
inductive Action where
  /-- Fulfil a demand. -/
  | fulfil (demand : Demand)
  /-- Call a method on instances of exactly the class. -/
  | callExact (method : MethodName)
  /-- Analyze what runs or is exported even if nothing refers to the class. -/
  | enter
deriving DecidableEq

/-- Something to do with a class, and why. An optional task may be for a class that does not
exist. -/
structure Task where
  cls : ClassName
  action : Action
  cause : Cause
  isOptional : Bool := false
deriving DecidableEq

/-- The tasks for everything that some code demands. -/
def Demands.tasks (demands : Demands) (cause : Cause) : List Task :=
  demands.toList.map fun entry => { cls := entry.1, action := .fulfil entry.2, cause }

namespace Requirement

/-- The demands of a leaf, with the text of its component and the class that they are for. -/
def leaf? : Requirement → Option (String × ClassName × List Demand)
  | module asker cls => some (asker, cls, [.use .module])
  | instances asker cls ctor => some (asker, cls, Demand.newInstance ctor)
  | tests asker cls => some (asker, cls, [.use .tests])
  | typeData asker cls => some (asker, cls, [.use .typeData])
  | staticField asker cls _ => some (asker, cls, [.use .staticFields])
  | call asker cls method => some (asker, cls, [.call method])
  | callDirect asker cls method => some (asker, cls, [.callDirect ⟨.publicInstance, method⟩])
  | callStatic asker cls method => some (asker, cls, [.callDirect ⟨.publicStatic, method⟩])
  | optional _ | every _ | nothing => none

/-- The tasks for the demands of a leaf. -/
def leafTasks (isOptional : Bool) (requirement : Requirement) : List Task :=
  match requirement.leaf? with
  | some (asker, cls, demands) =>
    demands.map fun demand =>
      { cls, action := .fulfil demand, cause := .component asker, isOptional }
  | none => []

mutual

/-- The tasks of a requirement, from left to right. Those below an optional requirement are
optional. -/
def tasks (isOptional : Bool) : Requirement → List Task
  | optional inner => tasks true inner
  | every all => tasksOfAll isOptional all
  | leaf => leafTasks isOptional leaf

/-- The tasks of several requirements in turn. -/
def tasksOfAll (isOptional : Bool) : List Requirement → List Task
  | [] => []
  | requirement :: rest => tasks isOptional requirement ++ tasksOfAll isOptional rest

end

@[simp] theorem tasksOfAll_eq_flatMap (isOptional : Bool) (all : List Requirement) :
    tasksOfAll isOptional all = all.flatMap (tasks isOptional) := by
  induction all with
  | nil => rfl
  | cons requirement rest ih => simp [tasksOfAll, ih]

end Requirement

/-- How far the analysis has come with a class. -/
inductive Status where
  /-- The summary has been asked for. -/
  | awaited (parked : List Task)
  /-- The summary is there, if the class exists, but not every ancestor is linked. -/
  | loaded (summary : Option ClassSummary) (parked : List Task)
  | linked (record : ClassRecord)
  /-- The class lies on an inheritance cycle or inherits from one. -/
  | failed
deriving DecidableEq

/-- The class that a status holds, if it is linked. -/
def Status.record? : Status → Option ClassRecord
  | linked record => some record
  | _ => none

/-- Tells whether a status holds a summary that is not linked yet. -/
def Status.isLoaded : Status → Bool
  | loaded _ _ => true
  | _ => false

/-- The tasks parked with a class. -/
def Status.parked : Status → List Task
  | awaited parked | loaded _ parked => parked
  | linked _ | failed => []

/-- The state of an analysis. -/
structure State where
  /-- Whether bridges and proxies may be added to classes. -/
  allowForwarders : Bool
  table : Std.ExtTreeMap ClassName Status := ∅
  /-- What is to do, in order. -/
  work : List Task := []
  /-- The classes whose summary is to be loaded next, in the order in which they were needed. -/
  wanted : List ClassName := []
  /-- The loaded classes that are not linked, in the order in which they were loaded. -/
  unlinked : List ClassName := []
  errors : List Diagnostic := []
deriving DecidableEq

namespace State

/-- How far the analysis has come with a class that something has asked for. -/
def status? (state : State) (name : ClassName) : Option Status :=
  state.table[name]?

/-- A linked class. -/
def class? (state : State) (name : ClassName) : Option ClassRecord :=
  (state.status? name).bind Status.record?

/-- A method of a linked class. -/
def method? (state : State) (method : MethodId) : Option MethodRecord :=
  (state.class? method.owner).bind fun cls => cls.method? method.key

/-- The state with the status of a class set. -/
def setStatus (state : State) (name : ClassName) (status : Status) : State :=
  { state with table := state.table.insert name status }

/-- The state with a class linked. -/
def setClass (state : State) (name : ClassName) (record : ClassRecord) : State :=
  state.setStatus name (.linked record)

/-- The state with a linked class changed. -/
def modifyClass (state : State) (name : ClassName) (change : ClassRecord → ClassRecord) : State :=
  match state.class? name with
  | some record => state.setClass name (change record)
  | none => state

/-- The state with more to do. -/
def addTasks (state : State) (tasks : List Task) : State :=
  { state with work := state.work ++ tasks }

/-- The state with one more error. -/
def report (state : State) (error : Diagnostic) : State :=
  { state with errors := state.errors ++ [error] }

/-- The state in which the summary of a class is awaited, with tasks parked. -/
def await (state : State) (name : ClassName) (parked : List Task) : State :=
  { state.setStatus name (.awaited parked) with wanted := state.wanted ++ [name] }

/-- Asks for the summary of a class that nothing has asked for yet. -/
def request (state : State) (name : ClassName) : State :=
  match state.status? name with
  | none => state.await name []
  | some _ => state

/-! ### Reading back what was written -/

@[simp] theorem status?_setStatus (state : State) (name other : ClassName) (status : Status) :
    (state.setStatus name status).status? other =
      if name = other then some status else state.status? other := by
  simp [status?, setStatus, Std.ExtTreeMap.getElem?_insert]

/-- A status that is read back has been written just now, or it was there before. -/
theorem status_of_setStatus {state : State} {name other : ClassName} {status later : Status}
    (h : (state.setStatus name later).status? other = some status) :
    other = name ∧ status = later ∨ state.status? other = some status := by
  rw [status?_setStatus] at h
  split at h
  · rename_i same
    exact .inl ⟨same.symm, (Option.some.inj h).symm⟩
  · exact .inr h

@[simp] theorem class?_setClass (state : State) (name other : ClassName) (record : ClassRecord) :
    (state.setClass name record).class? other =
      if name = other then some record else state.class? other := by
  unfold class? setClass
  rw [status?_setStatus]
  split <;> rfl

/-- Nothing is known in the beginning. -/
@[simp] theorem status?_blank (allowForwarders : Bool) (name : ClassName) :
    status? { allowForwarders } name = none :=
  Std.ExtTreeMap.getElem?_empty

@[simp] theorem class?_blank (allowForwarders : Bool) (name : ClassName) :
    class? { allowForwarders } name = none := by
  rw [class?, status?_blank, Option.bind_none]

end State

end ClassLinker
