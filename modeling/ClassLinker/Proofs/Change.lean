import ClassLinker.Proofs.Reachability

/-!
# The changes that an analysis is made of

Whatever an analysis does to its state, it does in steps of a few forms. `Change setting state` are
the states that are one such step away, each with the reason for which the step is made:

* an `Update` changes what is known of a linked class: it is used, it gets instances, a call on it
  is noted, or one of its methods is called;
* `Enters` tells which method a call can enter: one that is there already, an absent one, or a
  bridge or proxy that is added;
* the other steps ask for classes, take them in, link or fail them, and put tasks on the list.

The reasons speak of facts that a set of facts given by the setting contains. The set of all facts
asks for no reason, and the least closed set for the best one.
-/

namespace ClassLinker

/-- The summaries tell what each method demands, and that abstract methods demand nothing. -/
def Universe.IsCoherent (world : Universe) : Prop :=
  ∀ {name : ClassName} {summary : ClassSummary} {key : MethodKey} {entry : MethodRecord}
    {method : MethodSummary}, world name = some summary →
    (ClassRecord.declaredMethods name summary)[key]? = some entry →
    summary.method? key.space key.name = some method →
      entry.isAbstract = true → method.demands.toList = []

/-- What a run is about: what can be loaded, the roots, and the facts that may be used. -/
structure Setting where
  world : Universe
  allow : Bool
  requirement : Requirement
  entryPoints : List ClassName
  facts : Fact → Prop

namespace Setting

/-- The program that the run analyzes. -/
noncomputable def program (setting : Setting) : Program where
  classes := setting.world.classes
  requirement := setting.requirement
  entryPoints := setting.entryPoints

/-- The root class is in order, and the facts include what follows from them. That the rules tell
everything that can follow is needed only for facts that are not all there are. -/
structure IsFair (setting : Setting) : Prop where
  rooted : setting.world.IsRooted
  closed : Closed setting.program setting.facts
  full : (∀ fact, setting.facts fact) ∨ setting.allow = false ∧ setting.world.IsCoherent

/-- The task does something that the facts say is asked for. Calls on instances of exactly a class
are made by proxies, which only ordinary classes have. -/
def Justifies (setting : Setting) (task : Task) : Prop :=
  match task.action with
  | .fulfil demand => setting.facts (.asked task.cls demand)
  | .callExact _ =>
    setting.allow = true ∧
      ∀ cls, setting.world.Links task.cls cls → cls.kind.isOrdinary = true
  | .enter => task.cls ∈ setting.entryPoints

theorem Justifies.isOrdinary {setting : Setting} {task : Task} {method : MethodName}
    {cls : ClassRecord} (justified : setting.Justifies task)
    (asked : task.action = .callExact method) (links : setting.world.Links task.cls cls) :
    cls.kind.isOrdinary = true := by
  unfold Justifies at justified
  rw [asked] at justified
  exact justified.2 _ links

end Setting

/-- A method of the class by its key. -/
def ClassRecord.idOf (cls : ClassRecord) (key : MethodKey) : MethodId :=
  ⟨cls.name, key.space, key.name⟩

/-- The method with a caller entered, which makes it reachable. -/
def MethodRecord.calledBy (entry : MethodRecord) (cause : Cause) : MethodRecord :=
  { entry with isReached := true, callers := recordOnce entry.callers cause }

/-- The class with a method called. -/
def ClassRecord.withCall (cls : ClassRecord) (key : MethodKey) (entry : MethodRecord)
    (cause : Cause) : ClassRecord :=
  { cls with methods := cls.methods.insert key (entry.calledBy cause) }

/-- The tasks that follow from the first call of a method. -/
def ClassRecord.callTasks (cls : ClassRecord) (entry : MethodRecord) : List Task :=
  if entry.isReached then [] else State.methodTasks cls entry

/-- The errors of a call for which several interfaces offer a default method. -/
def conflictErrors (method : MethodName) (owners : List ClassName) (cause : Cause) :
    List Diagnostic :=
  if owners.length ≤ 1 then []
  else [.conflictingDefaults (owners.map fun owner => ⟨owner, .publicInstance, method⟩) cause]

/-- The instances of the super class that instances of a JavaScript class need. -/
def ClassRecord.superTasks (cls : ClassRecord) : List Task :=
  cls.superClass.toList.map fun parent =>
    { cls := parent, action := .fulfil (.use .instances), cause := .cls cls.name }

/-- All tasks that follow from there being instances of a class. -/
def ClassRecord.instanceDues (cls : ClassRecord) : List Task :=
  (if cls.kind.isDefinedJS then cls.superTasks else []) ++ State.instanceTasks cls ++
    State.exportedMemberTasks cls

/-- The state with a class changed, and with more tasks and errors. -/
def State.revise (state : State) (name : ClassName) (cls : ClassRecord) (tasks : List Task)
    (errors : List Diagnostic) : State :=
  { state.setClass name cls with
    work := state.work ++ tasks
    errors := state.errors ++ errors }

/-- The state with more tasks and errors. -/
def State.extend (state : State) (tasks : List Task) (errors : List Diagnostic) : State :=
  { state with
    work := state.work ++ tasks
    errors := state.errors ++ errors }

/-- A call of a method of the class can find or make this entry, with these errors. -/
inductive Enters (setting : Setting) (state : State) (cls : ClassRecord) (cause : Cause) :
    MethodKey → MethodRecord → List Diagnostic → Prop
  | found {key : MethodKey} {entry : MethodRecord} (has : cls.method? key = some entry)
      (fact : setting.allow = false → entry.isConcrete = true →
        setting.facts (.reached (cls.idOf key))) : Enters setting state cls cause key entry []
  | missing {key : MethodKey} (lacks : cls.method? key = none) :
      Enters setting state cls cause key (.absent (cls.idOf key))
        [.missingMethod (cls.idOf key) cause]
  | bridge {method : MethodName} {first : ClassName} {others : List ClassName}
      (allowed : setting.allow = true) (kind : cls.kind ≠ .interface)
      (lacks : state.superImplementor? cls.name method = none)
      (owners : state.defaultOwners cls.name method = first :: others) :
      Enters setting state cls cause ⟨.publicInstance, method⟩
        { id := ⟨cls.name, .publicInstance, method⟩, forwarder := some (.bridge first) }
        (conflictErrors method (first :: others) cause)
  | proxy {method target : MethodName} (allowed : setting.allow = true)
      (isProxy : method.isProxy = true) (kind : cls.kind.isOrdinary = true)
      (lacks : cls.method? ⟨.publicInstance, method⟩ = none)
      (chosen : state.proxyTarget? cls.name method = some target) :
      Enters setting state cls cause ⟨.publicInstance, method⟩
        { id := ⟨cls.name, .publicInstance, method⟩, forwarder := some (.proxy target) } []

/-- What is known of a linked class changes, with new tasks and errors. -/
inductive Update (setting : Setting) (state : State) (cls : ClassRecord) :
    ClassRecord → List Task → List Diagnostic → Prop
  | use {use : Use} (present : cls.isPresent = true) (fact : setting.facts (.used cls.name use)) :
      Update setting state cls (cls.addUse use) [] []
  | creator (cause : Cause) :
      Update setting state cls { cls with creators := recordOnce cls.creators cause } [] []
  | instances {tasks : List Task} (fact : setting.facts (.inhabited cls.name))
      (justified : ∀ task ∈ tasks, setting.Justifies task)
      (dues : ∀ task ∈ cls.instanceDues, task ∈ state.work ++ tasks) :
      Update setting state cls { cls with hasInstances := true } tasks []
  | inhabit {name : ClassName} {record : ClassRecord} (found : state.class? name = some record)
      (kind : record.kind.isOrdinary = true) (created : record.uses.instances = true)
      (mem : cls.name ∈ record.ancestors) :
      Update setting state cls { cls with inhabited := cls.inhabited ++ [name] } [] []
  | note {method : MethodName} {cause : Cause} (present : cls.isPresent = true)
      (notJS : cls.kind.isJS = false) (fact : setting.facts (.asked cls.name (.call method))) :
      Update setting state cls { cls with calls := cls.calls ++ [(method, cause)] } [] []
  | call {cause : Cause} {key : MethodKey} {entry : MethodRecord} {errors : List Diagnostic}
      (enters : Enters setting state cls cause key entry errors) :
      Update setting state cls (cls.withCall key entry cause) (cls.callTasks entry) errors

/-- One step of an analysis. -/
inductive Change (setting : Setting) (state : State) : State → Prop
  | update {name : ClassName} {cls cls' : ClassRecord} {tasks : List Task}
      {errors : List Diagnostic} (found : state.class? name = some cls)
      (update : Update setting state cls cls' tasks errors) :
      Change setting state (state.revise name cls' tasks errors)
  | extend {tasks : List Task} (errors : List Diagnostic)
      (justified : ∀ task ∈ tasks, setting.Justifies task) :
      Change setting state (state.extend tasks errors)
  | await {name : ClassName} {parked : List Task} (new : state.status? name = none)
      (justified : ∀ task ∈ parked, setting.Justifies task) :
      Change setting state (state.await name parked)
  | park {task : Task} {parked : List Task}
      (status : state.status? task.cls = some (.awaited parked))
      (justified : setting.Justifies task) :
      Change setting state (state.setStatus task.cls (.awaited (parked ++ [task])))
  | parkLoaded {task : Task} {summary : Option ClassSummary} {parked : List Task}
      (status : state.status? task.cls = some (.loaded summary parked))
      (justified : setting.Justifies task) :
      Change setting state (state.setStatus task.cls (.loaded summary (parked ++ [task])))
  | receive {name : ClassName}
      (unseen : ∀ status, state.status? name = some status → ∃ parked, status = .awaited parked) :
      Change setting state (state.receive name (setting.world name))
  | queue (wanted unlinked : List ClassName) :
      Change setting state { state with wanted, unlinked }
  | absent {name : ClassName} {parked : List Task}
      (status : state.status? name = some (.loaded none parked)) :
      Change setting state (state.revise name (.absent name) parked [])
  | link {name : ClassName} {summary : ClassSummary} {parked : List Task}
      {errors : List Diagnostic} (parents : ClassName → ClassRecord)
      (status : state.status? name = some (.loaded (some summary) parked))
      (above : ∀ parent ∈ summary.parents, state.class? parent = some (parents parent))
      (root : name ≠ .object → ∃ record, state.class? .object = some record) :
      Change setting state (state.revise name (summary.linkedAs name parents) parked errors)
  | fail {name : ClassName} {summary : ClassSummary} {parked : List Task}
      (status : state.status? name = some (.loaded (some summary) parked))
      (unlinkable : ∀ cls, ¬ setting.world.Links name cls) (reported : state.errors ≠ []) :
      Change setting state (state.setStatus name .failed)

/-- Some steps of an analysis. -/
abbrev Changes (setting : Setting) : State → State → Prop :=
  Relation.ReflTransGen (Change setting)

/-- One move of a run, in whatever order the tasks are done: a step is made, or tasks are taken off
the list. -/
inductive Move (setting : Setting) (state : State) : State → Prop
  | change {next : State} (change : Change setting state next) : Move setting state next
  | take {rest : List Task} (fewer : rest ⊆ state.work) :
      Move setting state { state with work := rest }

/-- Some moves of a run. -/
abbrev Moves (setting : Setting) : State → State → Prop :=
  Relation.ReflTransGen (Move setting)

theorem Changes.moves {setting : Setting} {state next : State}
    (changes : Changes setting state next) : Moves setting state next :=
  (Relation.ReflTransGen.mono fun _ _ => Move.change) _ _ changes

/-! ### Reading back what was written -/

namespace State

@[simp] theorem status?_revise (state : State) (name other : ClassName) (cls : ClassRecord)
    (tasks : List Task) (errors : List Diagnostic) :
    (state.revise name cls tasks errors).status? other =
      if name = other then some (.linked cls) else state.status? other :=
  status?_setStatus ..

@[simp] theorem class?_revise (state : State) (name other : ClassName) (cls : ClassRecord)
    (tasks : List Task) (errors : List Diagnostic) :
    (state.revise name cls tasks errors).class? other =
      if name = other then some cls else state.class? other :=
  class?_setClass ..

theorem class?_eq_some {state : State} {name : ClassName} {cls : ClassRecord} :
    state.class? name = some cls ↔ state.status? name = some (.linked cls) := by
  unfold class?
  cases h : state.status? name with
  | none => simp
  | some status => cases status <;> simp [Status.record?]

/-- What is taken in gets the tasks that are parked with the class. -/
theorem receive_eq (state : State) (name : ClassName) (summary : Option ClassSummary) :
    ∃ parked, state.receive name summary =
        { state.setStatus name (.loaded summary parked) with
          unlinked := state.unlinked ++ [name] } ∧
      (state.status? name = none → parked = []) ∧
      ∀ before, state.status? name = some (.awaited before) → parked = before := by
  refine ⟨_, rfl, fun unseen => ?_, fun before awaited => ?_⟩
  · rw [unseen]
  · rw [awaited]

theorem class?_eq_none_of_new {state : State} {name : ClassName}
    (new : state.status? name = none) : state.class? name = none := by
  rw [class?, new, Option.bind_none]

theorem class?_eq_none_of_status {state : State} {name : ClassName} {status : Status}
    (h : state.status? name = some status) (unlinked : status.record? = none) :
    state.class? name = none := by
  rw [class?, h]
  exact unlinked

/-- A class whose summary has not been taken in is not linked. -/
theorem class?_eq_none_of_unseen {state : State} {name : ClassName}
    (unseen : ∀ status, state.status? name = some status → ∃ parked, status = .awaited parked) :
    state.class? name = none := by
  cases h : state.status? name with
  | none => exact class?_eq_none_of_new h
  | some status =>
    obtain ⟨parked, rfl⟩ := unseen status h
    exact class?_eq_none_of_status h rfl

/-- What is parked with a class that is taken in was parked with it before. -/
theorem receive_of_unseen {state : State} {name : ClassName}
    (unseen : ∀ status, state.status? name = some status → ∃ parked, status = .awaited parked)
    (summary : Option ClassSummary) :
    ∃ parked, state.receive name summary =
        { state.setStatus name (.loaded summary parked) with
          unlinked := state.unlinked ++ [name] } ∧
      ∀ task ∈ parked, ∃ status, state.status? name = some status ∧ task ∈ status.parked := by
  obtain ⟨parked, same, new, awaited⟩ := state.receive_eq name summary
  refine ⟨parked, same, fun task mem => ?_⟩
  cases h : state.status? name with
  | none =>
    rw [new h] at mem
    cases mem
  | some status =>
    obtain ⟨before, rfl⟩ := unseen status h
    exact ⟨_, rfl, awaited before h ▸ mem⟩

/-- A status that holds no class can be put in place of another one. -/
theorem class?_setStatus {state : State} {name : ClassName} {status : Status}
    (before : state.class? name = none) (after : status.record? = none) :
    (state.setStatus name status).class? = state.class? := by
  funext other
  unfold class? at before ⊢
  rw [status?_setStatus]
  split
  · rename_i same
    subst same
    rw [before, Option.bind_some, after]
  · rfl

end State

end ClassLinker
