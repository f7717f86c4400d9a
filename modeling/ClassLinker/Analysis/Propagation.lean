import ClassLinker.Analysis.Resolution

/-!
# Working off tasks

What happens to a linked class when a task is done, and what new tasks follow from it.

* `State.addCaller` enters the caller of a method; the first caller makes the method reachable, and
  everything that the method demands follows;
* `State.create` creates instances of a class: all its ancestors then have instances, and every
  call made on one of them is dispatched in the class;
* `State.callDispatched` notes a call with dynamic dispatch and dispatches it in all classes below
  that instances are created of;
* `State.perform` does a task, or parks it with a class that is not linked.

Every one of these effects happens once: a way of use is entered once, a method is made reachable
once, and a call is noted once for each of its causes.
-/

namespace ClassLinker.State

/-- What follows from a method being reachable: a bridge calls the default method, a proxy calls
its target, and a declared method demands what its code demands. -/
def methodTasks (cls : ClassRecord) (method : MethodRecord) : List Task :=
  let id := method.id
  match method.forwarder with
  | some (.bridge interface) =>
    [{ cls := interface, action := .fulfil (.callDirect ⟨.publicInstance, id.name⟩),
       cause := .method id }]
  | some (.proxy target) =>
    [{ cls := id.owner, action := .callExact target, cause := .method id }]
  | none =>
    if method.isPresent then
      match cls.summary.bind fun summary => summary.method? id.space id.name with
      | some declared => declared.demands.tasks (.method id)
      | none => []
    else []

/-- Enters a caller of a method and makes the method reachable. -/
def addCaller (state : State) (target : MethodId) (cause : Cause) : State :=
  match state.class? target.owner with
  | none => state
  | some cls =>
    match cls.method? target.key with
    | none => state
    | some method =>
      let called := { method with isReached := true, callers := recordOnce method.callers cause }
      let entered := state.setClass target.owner
        { cls with methods := cls.methods.insert target.key called }
      if method.isReached then entered else entered.addTasks (methodTasks cls method)

/-- Makes a call on instances of exactly a class. -/
def callExact (state : State) (name : ClassName) (method : MethodName) (cause : Cause) : State :=
  let (target, state) := state.dispatch name method cause
  state.addCaller target cause

/-- Makes a call on instances of exactly a class in which the method has been called before. -/
def callAgain (state : State) (name : ClassName) (method : MethodName) (cause : Cause) : State :=
  match state.dispatchedBefore? name method with
  | some target => state.addCaller target cause
  | none => state

/-! ### Instances -/

/-- What the members exported on the instances of a class demand. -/
def exportedMemberTasks (cls : ClassRecord) : List Task :=
  match cls.summary with
  | none => []
  | some summary => summary.exportedMembers.flatMap fun member => member.tasks .exports

/-- What follows from there being instances of a class: its exported members, except that those
of a JavaScript class wait until instances of the class itself are created, and the type data of
the classes in its fields. -/
def instanceTasks (cls : ClassRecord) : List Task :=
  match cls.summary with
  | none => []
  | some summary =>
    (if cls.kind.isDefinedJS then [] else exportedMemberTasks cls) ++
      summary.fieldClasses.map fun field =>
        { cls := field, action := .fulfil (.use .typeData), cause := .cls cls.name }

/-- Notes that there are instances of a class or of one below it. -/
def markInstances (state : State) (name : ClassName) : State :=
  match state.class? name with
  | none => state
  | some cls =>
    if cls.hasInstances then state
    else (state.setClass name { cls with hasInstances := true }).addTasks (instanceTasks cls)

/-- Notes that a class that instances are created of lies at or below an ancestor. -/
def addInhabited (state : State) (name ancestor : ClassName) : State :=
  state.modifyClass ancestor fun cls => { cls with inhabited := cls.inhabited ++ [name] }

/-- The calls noted on some classes. -/
def callsOn (state : State) (names : List ClassName) : List (MethodName × Cause) :=
  (names.filterMap state.class?).flatMap ClassRecord.calls

/-- Creates instances of an ordinary class. -/
def createOrdinary (state : State) (cls : ClassRecord) : State :=
  -- From here on, calls on the ancestors find the class among those that have instances.
  let marked := cls.ancestors.foldl
    (fun state ancestor => (state.markInstances ancestor).addInhabited cls.name ancestor) state
  -- The calls made before have not been dispatched in the class yet.
  (marked.callsOn cls.ancestors).foldl
    (fun state call => state.callExact cls.name call.1 call.2) marked

/-- Creates instances of a JavaScript class, and so of its super class. -/
def createJS (state : State) (cls : ClassRecord) : State :=
  let parentTasks : List Task := cls.superClass.toList.map fun parent =>
    { cls := parent, action := .fulfil (.use .instances), cause := .cls cls.name }
  ((state.addTasks parentTasks).markInstances cls.name).addTasks (exportedMemberTasks cls)

/-- Creates instances of a class. Nothing happens for a kind that has none, but the cause is
entered all the same. -/
def create (state : State) (name : ClassName) (cause : Cause) : State :=
  match state.class? name with
  | none => state
  | some cls =>
    let cls := { cls with creators := recordOnce cls.creators cause }
    if cls.uses.instances || !cls.kind.isInstantiable then state.setClass name cls
    else
      let state := state.setClass name (cls.addUse .instances)
      if cls.kind.isOrdinary then state.createOrdinary cls
      else if cls.kind.isDefinedJS then state.createJS cls
      else state.markInstances name

/-- Reads the instance of a module. The first read creates it, and runs the constructor unless the
module belongs to JavaScript. -/
def readModule (state : State) (name : ClassName) (cause : Cause) : State :=
  match state.class? name with
  | none => state
  | some cls =>
    if !cls.kind.isModule then state.report (.notAModule name cause)
    else if cls.uses.module then state
    else
      let created := (state.setClass name (cls.addUse .module)).create name cause
      if cls.kind.isOrdinary then
        created.addTasks [{
          cls := name, action := .fulfil (.callDirect ⟨.constructor, .defaultConstructor⟩),
          cause }]
      else created

/-! ### Calls -/

/-- Makes a call with dynamic dispatch on receivers of a class. A method that has been called from
elsewhere is dispatched already, so its targets only get another caller. -/
def callDispatched (state : State) (name : ClassName) (method : MethodName) (cause : Cause) :
    State :=
  match state.class? name with
  | none => state
  | some cls =>
    if cls.kind.isJS || (method, cause) ∈ cls.calls then state
    else
      let isDispatched := cls.calls.any fun call => call.1 = method
      let noted := state.setClass name { cls with calls := cls.calls ++ [(method, cause)] }
      cls.inhabited.foldl
        (fun state below =>
          if isDispatched then state.callAgain below method cause
          else state.callExact below method cause) noted

/-- Makes a call without dynamic dispatch. A public method is looked for in the super classes and
interfaces too, any other must be a method of the class itself. -/
def callDirect (state : State) (name : ClassName) (method : MethodKey) (cause : Cause) : State :=
  if method.space = .publicInstance then
    let (target, state) := state.resolve name method.name cause
    state.addCaller target cause
  else
    match state.class? name with
    | none => state
    | some cls =>
      let target : MethodId := ⟨name, method.space, method.name⟩
      let state :=
        match cls.method? method with
        | some _ => state
        | none => state.reportMissing target cause
      state.addCaller target cause

/-! ### Tasks -/

/-- Uses a class in one of the six ways. -/
def useClass (state : State) (name : ClassName) (use : Use) (cause : Cause) : State :=
  match use with
  | .instances => state.create name cause
  | .module => state.readModule name cause
  | .tests | .typeData | .staticFields | .privateFields =>
    state.modifyClass name fun cls => cls.addUse use

/-- What runs or is exported of a class even if nothing refers to it. -/
def entryTasks (cls : ClassRecord) : List Task :=
  match cls.summary with
  | none => []
  | some summary =>
    (if summary.initializesStatics then
      [{ cls := cls.name, action := .fulfil (.callDirect ⟨.staticConstructor, .classInit⟩),
         cause := .component "static initializers" }]
    else []) ++ summary.exports.flatMap fun item => item.demands.tasks .exports

/-- Does something with a class that exists. -/
def act (state : State) (cls : ClassRecord) (action : Action) (cause : Cause) : State :=
  match action with
  | .fulfil (.use use) => state.useClass cls.name use cause
  | .fulfil (.call method) => state.callDispatched cls.name method cause
  | .fulfil (.callDirect method) => state.callDirect cls.name method cause
  | .callExact method => state.callExact cls.name method cause
  | .enter => state.addTasks (entryTasks cls)

/-- Does a task. It is an error if its class does not exist, unless the task is optional. A task
for a class that is not linked yet is parked, and one for a class that has failed is dropped. -/
def perform (state : State) (task : Task) : State :=
  match state.status? task.cls with
  | none => state.await task.cls [task]
  | some (.awaited parked) => state.setStatus task.cls (.awaited (parked ++ [task]))
  | some (.loaded summary parked) =>
    state.setStatus task.cls (.loaded summary (parked ++ [task]))
  | some .failed => state
  | some (.linked cls) =>
    if cls.isPresent then state.act cls task.action task.cause
    else if task.isOptional then state
    else state.report (.missingClass task.cls task.cause)

end ClassLinker.State
