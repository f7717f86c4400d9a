import ClassLinker.Proofs.Landings

/-!
# States that do the same

Nothing that an analysis does depends on the tasks that wait or on the errors reported so far. So if
two states agree apart from these, they do the same and go on to agree. `State.Mirrors` says so, for
any `Leeway` in tasks and errors that is kept when both get the same tasks and errors.

* `State.Mirrors.superImplementor?_eq` and its like: both states find the same;
* `State.Mirrors.act` and the lemmas before it: both states do the same with a class that exists;
* `State.Mirrors.perform`: both do a task, which need not be the same one.
-/

namespace ClassLinker

/-- By how much the tasks and errors of one state may differ from those of another. -/
structure Leeway where
  work : List Task → List Task → Prop
  parked : List Task → List Task → Prop
  errors : List Diagnostic → List Diagnostic → Prop
  idle : parked [] []
  extend : ∀ {first second : List Task} (more : List Task), work first second →
    work (first ++ more) (second ++ more)
  release : ∀ {first second held held' : List Task}, work first second → parked held held' →
    work (first ++ held) (second ++ held')
  report : ∀ {first second : List Diagnostic} (more : List Diagnostic), errors first second →
    errors (first ++ more) (second ++ more)

/-- The statuses agree apart from the tasks that wait. -/
inductive Status.Mirrors (leeway : Leeway) : Status → Status → Prop
  | awaited {held held' : List Task} (parked : leeway.parked held held') :
      Status.Mirrors leeway (.awaited held) (.awaited held')
  | loaded (summary : Option ClassSummary) {held held' : List Task}
      (parked : leeway.parked held held') :
      Status.Mirrors leeway (.loaded summary held) (.loaded summary held')
  | linked (record : ClassRecord) : Status.Mirrors leeway (.linked record) (.linked record)
  | failed : Status.Mirrors leeway .failed .failed

/-- The states agree apart from tasks and errors, which agree up to some leeway. -/
structure State.Mirrors (leeway : Leeway) (state mirror : State) : Prop where
  allow : mirror.allowForwarders = state.allowForwarders
  status : ∀ name,
    Option.Rel (Status.Mirrors leeway) (state.status? name) (mirror.status? name)
  work : leeway.work state.work mirror.work
  wanted : mirror.wanted = state.wanted
  unlinked : mirror.unlinked = state.unlinked
  errors : leeway.errors state.errors mirror.errors

/-- The answers are the same, and the states that come with them agree. -/
def Leeway.Agree (leeway : Leeway) {α : Type} (first second : α × State) : Prop :=
  second.1 = first.1 ∧ first.2.Mirrors leeway second.2

variable {leeway : Leeway} {state mirror : State} {task : Task} {record : ClassRecord}

theorem Status.Mirrors.record?_eq {status status' : Status}
    (mirrors : status.Mirrors leeway status') : status'.record? = status.record? := by
  cases mirrors <;> rfl

namespace State.Mirrors

theorem refl (work : ∀ tasks, leeway.work tasks tasks) (parked : ∀ tasks, leeway.parked tasks tasks)
    (errors : ∀ errors, leeway.errors errors errors) (state : State) :
    state.Mirrors leeway state where
  allow := rfl
  status name := by
    cases state.status? name with
    | none => exact .none
    | some status =>
      refine .some ?_
      cases status with
      | awaited => exact .awaited (parked _)
      | loaded => exact .loaded _ (parked _)
      | linked => exact .linked _
      | failed => exact .failed
  work := work _
  wanted := rfl
  unlinked := rfl
  errors := errors _

variable (mirrors : state.Mirrors leeway mirror)

theorem trans {third : State}
    (work : ∀ {first second third}, leeway.work first second → leeway.work second third →
      leeway.work first third)
    (parked : ∀ {first second third}, leeway.parked first second → leeway.parked second third →
      leeway.parked first third)
    (errors : ∀ {first second third}, leeway.errors first second → leeway.errors second third →
      leeway.errors first third)
    (mirrors : state.Mirrors leeway mirror) (mirrors' : mirror.Mirrors leeway third) :
    state.Mirrors leeway third where
  allow := mirrors'.allow.trans mirrors.allow
  status name := by
    have early := mirrors.status name
    have late := mirrors'.status name
    generalize state.status? name = first, mirror.status? name = second,
      third.status? name = third at early late
    cases early with
    | none => exact late
    | some early =>
      cases late with
      | some late =>
        refine .some ?_
        cases early with
        | awaited before => cases late with | awaited after => exact .awaited (parked before after)
        | loaded _ before =>
          cases late with | loaded _ after => exact .loaded _ (parked before after)
        | linked | failed => exact late
  work := work mirrors.work mirrors'.work
  wanted := mirrors'.wanted.trans mirrors.wanted
  unlinked := mirrors'.unlinked.trans mirrors.unlinked
  errors := errors mirrors.errors mirrors'.errors

include mirrors

/-! ### What both states find -/

theorem status_cases (name : ClassName) :
    (state.status? name = none ∧ mirror.status? name = none) ∨
      ∃ status status', state.status? name = some status ∧ mirror.status? name = some status' ∧
        status.Mirrors leeway status' := by
  have same := mirrors.status name
  generalize state.status? name = status, mirror.status? name = status' at same
  cases same with
  | none => exact .inl ⟨rfl, rfl⟩
  | some same => exact .inr ⟨_, _, rfl, rfl, same⟩

theorem class?_eq : mirror.class? = state.class? := by
  funext name
  unfold class?
  rcases mirrors.status_cases name with ⟨new, new'⟩ | ⟨_, _, at_, at', same⟩
  · rw [new, new']
  · rw [at_, at', Option.bind_some, Option.bind_some, same.record?_eq]

/-- The classes in the table, with what is known of those that are linked. -/
theorem records_eq : mirror.table.map (fun _ status => status.record?) =
    state.table.map fun _ status => status.record? := by
  refine Std.ExtTreeMap.ext_getElem? fun name => ?_
  rw [Std.ExtTreeMap.getElem?_map, Std.ExtTreeMap.getElem?_map]
  show (mirror.status? name).map _ = (state.status? name).map _
  rcases mirrors.status_cases name with ⟨new, new'⟩ | ⟨_, _, at_, at', same⟩
  · rw [new, new']
  · rw [at_, at', Option.map_some, Option.map_some, same.record?_eq]

theorem size_eq : mirror.table.size = state.table.size := by
  have same := congrArg Std.ExtTreeMap.size mirrors.records_eq
  rwa [Std.ExtTreeMap.size_map, Std.ExtTreeMap.size_map] at same

theorem superChain_eq (name : ClassName) : mirror.superChain name = state.superChain name := by
  have same : ∀ steps name, mirror.superChainUpTo steps name = state.superChainUpTo steps name := by
    intro steps
    induction steps with
    | zero => exact fun _ => rfl
    | succ steps ih =>
      intro name
      simp only [superChainUpTo, mirrors.class?_eq, ih]
  rw [superChain, mirrors.size_eq, same]
  rfl

theorem ancestorRecords_eq (name : ClassName) :
    mirror.ancestorRecords name = state.ancestorRecords name := by
  simp only [ancestorRecords, mirrors.class?_eq]

theorem superImplementor?_eq (name : ClassName) (method : MethodName) :
    mirror.superImplementor? name method = state.superImplementor? name method := by
  rw [superImplementor?, mirrors.superChain_eq]
  rfl

theorem defaultOwners_eq (name : ClassName) (method : MethodName) :
    mirror.defaultOwners name method = state.defaultOwners name method := by
  simp only [defaultOwners, defaultCandidates, mirrors.ancestorRecords_eq]

theorem proxyTarget?_eq (name : ClassName) (proxy : MethodName) :
    mirror.proxyTarget? name proxy = state.proxyTarget? name proxy := by
  have specific : mirror.mostSpecific? = state.mostSpecific? := by
    funext candidates
    simp only [mostSpecific?, refinesResult, refines, isStrictlyBelow, mirrors.class?_eq]
  simp only [proxyTarget?, mirrors.superChain_eq, mirrors.ancestorRecords_eq, specific]

theorem dispatchedBefore?_eq (name : ClassName) (method : MethodName) :
    mirror.dispatchedBefore? name method = state.dispatchedBefore? name method := by
  simp only [dispatchedBefore?, mirrors.class?_eq, mirrors.superImplementor?_eq,
    mirrors.defaultOwners_eq]

theorem callsOn_eq (names : List ClassName) : mirror.callsOn names = state.callsOn names := by
  simp only [callsOn, mirrors.class?_eq]

/-! ### What both states write -/

theorem setStatus (name : ClassName) {status status' : Status}
    (same : status.Mirrors leeway status') :
    (state.setStatus name status).Mirrors leeway (mirror.setStatus name status') :=
  { mirrors with
    status := fun other => by
      simp only [status?_setStatus]
      split
      · exact .some same
      · exact mirrors.status other }

theorem setClass (name : ClassName) (record : ClassRecord) :
    (state.setClass name record).Mirrors leeway (mirror.setClass name record) :=
  mirrors.setStatus name (.linked record)

theorem extend (tasks : List Task) (errors : List Diagnostic) :
    (state.extend tasks errors).Mirrors leeway (mirror.extend tasks errors) :=
  { mirrors with
    work := leeway.extend tasks mirrors.work
    errors := leeway.report errors mirrors.errors }

theorem addTasks (tasks : List Task) :
    (state.addTasks tasks).Mirrors leeway (mirror.addTasks tasks) :=
  { mirrors with work := leeway.extend tasks mirrors.work }

theorem report (error : Diagnostic) : (state.report error).Mirrors leeway (mirror.report error) :=
  { mirrors with errors := leeway.report [error] mirrors.errors }

theorem modifyClass (name : ClassName) (change : ClassRecord → ClassRecord) :
    (state.modifyClass name change).Mirrors leeway (mirror.modifyClass name change) := by
  unfold State.modifyClass
  rw [mirrors.class?_eq]
  split
  · exact mirrors.setClass _ _
  · exact mirrors

/-- Both states take up the same things in turn. -/
theorem foldl {α : Type} {f : State → α → State}
    (each : ∀ {state mirror : State} (x : α), state.Mirrors leeway mirror →
      (f state x).Mirrors leeway (f mirror x)) (list : List α) :
    (list.foldl f state).Mirrors leeway (list.foldl f mirror) := by
  induction list generalizing state mirror with
  | nil => exact mirrors
  | cons x rest ih => exact ih (each x mirrors)

/-! ### Calls -/

theorem addCaller (target : MethodId) (cause : Cause) :
    (state.addCaller target cause).Mirrors leeway (mirror.addCaller target cause) := by
  unfold State.addCaller
  rw [mirrors.class?_eq]
  cases state.class? target.owner with
  | none => exact mirrors
  | some cls =>
    simp only
    cases cls.method? target.key with
    | none => exact mirrors
    | some method =>
      have entered := fun called => mirrors.setClass target.owner
        { cls with methods := cls.methods.insert target.key called }
      simp only
      split
      · exact entered _
      · exact (entered _).addTasks _

theorem addForwarder (name : ClassName) (method : MethodName) (forwarder : Forwarder) :
    leeway.Agree (state.addForwarder name method forwarder)
      (mirror.addForwarder name method forwarder) :=
  ⟨rfl, mirrors.modifyClass name _⟩

theorem reportMissing (id : MethodId) (cause : Cause) :
    (state.reportMissing id cause).Mirrors leeway (mirror.reportMissing id cause) :=
  (mirrors.modifyClass id.owner _).report _

theorem resolve (name : ClassName) (method : MethodName) (cause : Cause) :
    leeway.Agree (state.resolve name method cause) (mirror.resolve name method cause) := by
  unfold State.resolve
  rw [mirrors.superImplementor?_eq, mirrors.defaultOwners_eq]
  cases state.superImplementor? name method with
  | some owner => exact ⟨rfl, mirrors⟩
  | none =>
    cases state.defaultOwners name method with
    | nil => exact ⟨rfl, mirrors.reportMissing _ _⟩
    | cons first others =>
      simp only [reportConflict_eq]
      have reported := mirrors.extend [] (conflictErrors method (first :: others) cause)
      simp only [reported.class?_eq, reported.allow]
      split
      · exact ⟨rfl, reported⟩
      · exact reported.addForwarder name method (.bridge first)

theorem resolveProxy (name : ClassName) (proxy : MethodName) (cause : Cause) :
    leeway.Agree (state.resolveProxy name proxy cause) (mirror.resolveProxy name proxy cause) := by
  unfold State.resolveProxy
  simp only [mirrors.class?_eq, mirrors.proxyTarget?_eq]
  split
  · exact ⟨rfl, mirrors⟩
  · split
    · exact ⟨rfl, mirrors⟩
    · split
      · exact mirrors.addForwarder _ _ _
      · exact ⟨rfl, mirrors.reportMissing _ _⟩

theorem dispatch (name : ClassName) (method : MethodName) (cause : Cause) :
    leeway.Agree (state.dispatch name method cause) (mirror.dispatch name method cause) := by
  unfold State.dispatch
  rw [mirrors.allow]
  split
  · exact mirrors.resolveProxy name method cause
  · exact mirrors.resolve name method cause

theorem callExact (name : ClassName) (method : MethodName) (cause : Cause) :
    (state.callExact name method cause).Mirrors leeway (mirror.callExact name method cause) := by
  obtain ⟨target, dispatched⟩ := mirrors.dispatch name method cause
  unfold State.callExact
  simp only [target]
  exact dispatched.addCaller _ cause

theorem callAgain (name : ClassName) (method : MethodName) (cause : Cause) :
    (state.callAgain name method cause).Mirrors leeway (mirror.callAgain name method cause) := by
  unfold State.callAgain
  rw [mirrors.dispatchedBefore?_eq]
  split
  · exact mirrors.addCaller _ cause
  · exact mirrors

theorem callDirect (name : ClassName) (method : MethodKey) (cause : Cause) :
    (state.callDirect name method cause).Mirrors leeway (mirror.callDirect name method cause) := by
  unfold State.callDirect
  split
  · obtain ⟨target, resolved⟩ := mirrors.resolve name method.name cause
    simp only [target]
    exact resolved.addCaller _ cause
  · rw [mirrors.class?_eq]
    cases state.class? name with
    | none => exact mirrors
    | some cls =>
      simp only
      cases cls.method? method with
      | some _ => exact mirrors.addCaller _ cause
      | none => exact (mirrors.reportMissing _ cause).addCaller _ cause

/-! ### Instances -/

theorem markInstances (name : ClassName) :
    (state.markInstances name).Mirrors leeway (mirror.markInstances name) := by
  unfold State.markInstances
  rw [mirrors.class?_eq]
  split
  · exact mirrors
  · split
    · exact mirrors
    · exact (mirrors.setClass _ _).addTasks _

theorem createOrdinary (cls : ClassRecord) :
    (state.createOrdinary cls).Mirrors leeway (mirror.createOrdinary cls) := by
  have marked := mirrors.foldl
    (f := fun state ancestor => (state.markInstances ancestor).addInhabited cls.name ancestor)
    (fun ancestor same => (same.markInstances ancestor).modifyClass ancestor _) cls.ancestors
  unfold State.createOrdinary
  simp only [marked.callsOn_eq]
  exact marked.foldl (fun call same => same.callExact cls.name call.1 call.2) _

theorem createJS (cls : ClassRecord) :
    (state.createJS cls).Mirrors leeway (mirror.createJS cls) :=
  ((mirrors.addTasks _).markInstances cls.name).addTasks _

theorem create (name : ClassName) (cause : Cause) :
    (state.create name cause).Mirrors leeway (mirror.create name cause) := by
  unfold State.create
  rw [mirrors.class?_eq]
  cases state.class? name with
  | none => exact mirrors
  | some cls =>
    simp only
    split
    · exact mirrors.setClass _ _
    · have used := fun record => mirrors.setClass name record
      split
      · exact (used _).createOrdinary _
      · split
        · exact (used _).createJS _
        · exact (used _).markInstances name

theorem readModule (name : ClassName) (cause : Cause) :
    (state.readModule name cause).Mirrors leeway (mirror.readModule name cause) := by
  unfold State.readModule
  rw [mirrors.class?_eq]
  cases state.class? name with
  | none => exact mirrors
  | some cls =>
    simp only
    split
    · exact mirrors.report _
    · split
      · exact mirrors
      · have created := (mirrors.setClass name (cls.addUse .module)).create name cause
        split
        · exact created.addTasks _
        · exact created

/-! ### Tasks -/

theorem callDispatched (name : ClassName) (method : MethodName) (cause : Cause) :
    (state.callDispatched name method cause).Mirrors leeway
      (mirror.callDispatched name method cause) := by
  unfold State.callDispatched
  rw [mirrors.class?_eq]
  cases state.class? name with
  | none => exact mirrors
  | some cls =>
    simp only
    split
    · exact mirrors
    · refine (mirrors.setClass name _).foldl (fun below same => ?_) _
      split
      · exact same.callAgain below method cause
      · exact same.callExact below method cause

theorem useClass (name : ClassName) (use : Use) (cause : Cause) :
    (state.useClass name use cause).Mirrors leeway (mirror.useClass name use cause) := by
  cases use with
  | instances => exact mirrors.create name cause
  | module => exact mirrors.readModule name cause
  | tests | typeData | staticFields | privateFields => exact mirrors.modifyClass name _

/-- Both states do the same with a class that exists. -/
theorem act (cls : ClassRecord) (action : Action) (cause : Cause) :
    (state.act cls action cause).Mirrors leeway (mirror.act cls action cause) := by
  match action with
  | .fulfil (.use use) => exact mirrors.useClass cls.name use cause
  | .fulfil (.call method) => exact mirrors.callDispatched cls.name method cause
  | .fulfil (.callDirect method) => exact mirrors.callDirect cls.name method cause
  | .callExact method => exact mirrors.callExact cls.name method cause
  | .enter => exact mirrors.addTasks _

end State.Mirrors

/-- The error of doing a task for a class that does not exist. -/
def Task.missing (task : Task) : List Diagnostic :=
  if task.isOptional then [] else [.missingClass task.cls task.cause]

/-- A task for a class that exists is done there. -/
theorem State.perform_of_present (found : state.class? task.cls = some record)
    (present : record.isPresent = true) :
    state.perform task = state.act record task.action task.cause := by
  simp only [perform, class?_eq_some.1 found, present, if_true]

/-- A task for a class that does not exist does nothing but report that, unless it is optional. -/
theorem State.perform_of_absent (found : state.class? task.cls = some record)
    (absent : record.isPresent = false) : state.perform task = state.extend [] task.missing := by
  simp only [perform, class?_eq_some.1 found, absent, Bool.false_eq_true, if_false, Task.missing]
  split
  · rw [extend_nil]
  · rw [report_eq]

/-- Both states do a task, which may differ as long as the leeway allows for it. -/
theorem State.Mirrors.perform (mirrors : state.Mirrors leeway mirror) {task task' : Task}
    (cls : task'.cls = task.cls) (action : task'.action = task.action)
    (cause : task'.cause = task.cause)
    (park : ∀ {held held' : List Task}, leeway.parked held held' →
      leeway.parked (held ++ [task]) (held' ++ [task']))
    (missing : ∀ {errors errors' : List Diagnostic}, leeway.errors errors errors' →
      leeway.errors (errors ++ task.missing) (errors' ++ task'.missing)) :
    (state.perform task).Mirrors leeway (mirror.perform task') := by
  rcases mirrors.status_cases task.cls with ⟨new, new'⟩ | ⟨_, _, at_, at', same⟩
  · simp only [State.perform, cls, new, new']
    exact { mirrors.setStatus task.cls (.awaited (park leeway.idle)) with
      wanted := congrArg (· ++ [task.cls]) mirrors.wanted }
  · cases same with
    | awaited parked =>
      simp only [State.perform, cls, at_, at']
      exact mirrors.setStatus task.cls (.awaited (park parked))
    | loaded summary parked =>
      simp only [State.perform, cls, at_, at']
      exact mirrors.setStatus task.cls (.loaded summary (park parked))
    | failed =>
      simp only [State.perform, cls, at_, at']
      exact mirrors
    | linked record =>
      have found := State.class?_eq_some.2 at_
      have found' := State.class?_eq_some.2 (cls.symm ▸ at')
      cases present : record.isPresent with
      | true =>
        rw [State.perform_of_present found present, State.perform_of_present found' present, action,
          cause]
        exact mirrors.act record task.action task.cause
      | false =>
        rw [State.perform_of_absent found present, State.perform_of_absent found' present]
        exact { mirrors.addTasks [] with errors := missing mirrors.errors }

end ClassLinker
