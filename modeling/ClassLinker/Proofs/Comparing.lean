import ClassLinker.Proofs.Relays
import ClassLinker.Proofs.Serving

/-!
# Comparing runs

A run with fewer requirements stays below the end of one with more: what it knows, uses, calls and
reaches is known, used, called and reached there (`State.Under`). Nothing is said about the order in
which either run does its tasks, for in the end everything that is asked for has been served.

There is one exception. What a bridge or proxy calls has been served in the larger run only if the
bridge or proxy is there too. So the comparison takes for granted that whatever the smaller run
relays is reachable in the larger one, and every other method is shown to be
(`Landing.reached_above`).

* `State.Foresees`: what the larger run has done about a task of the smaller one;
* `State.Under.lands`: a call of the smaller run that is answered in the larger one leads to a state
  below it.
-/

namespace ClassLinker

variable {setting : Setting} {more : Requirement} {state next upper : State}
variable {name other owner : ClassName} {cls record : ClassRecord} {task : Task}
variable {key : MethodKey} {entry : MethodRecord} {method : MethodName} {cause : Cause}

namespace ClassRecord

/-! ### Classes that are linked in the same way -/

section

variable (same : record.fresh = cls.fresh)

include same

theorem kind_of_fresh : record.kind = cls.kind := (congrArg kind same :)

theorem isPresent_of_fresh : record.isPresent = cls.isPresent := (congrArg isPresent same :)

theorem ancestors_of_fresh : record.ancestors = cls.ancestors := (congrArg ancestors same :)

theorem summary_of_fresh : record.summary = cls.summary := (congrArg summary same :)

theorem instanceDues_of_fresh : record.instanceDues = cls.instanceDues :=
  (congrArg instanceDues same :)

end

end ClassRecord

/-- What is found out about a class has been found out in the other run too. -/
structure ClassRecord.Under (lower upper : ClassRecord) : Prop where
  uses : ∀ {use}, lower.uses.contains use = true → upper.uses.contains use = true
  hasInstances : lower.hasInstances = true → upper.hasInstances = true
  calls : ∀ {method cause}, (method, cause) ∈ lower.calls → ∃ cause, (method, cause) ∈ upper.calls

namespace State

/-- In the end of another run the task has been done, or it is a call that a bridge or proxy
makes. -/
inductive Foresees (setting : Setting) (upper : State) (task : Task) : Prop
  | served {demand : Demand} (action : task.action = .fulfil demand)
      (serves : upper.Serves task.cls demand)
  | entered (action : task.action = .enter) (entry : task.cls ∈ setting.entryPoints)
  | relayed {id : MethodId} (settled : upper.IsSettledClass task.cls)
      (cause : task.cause = .method id) (added : ¬ setting.world.IsPlain id)
      (calls : (∃ key, task.action = .fulfil (.callDirect key)) ∨
        ∃ method, task.action = .callExact method)

/-- In the end of another run the call has been answered, or a bridge or proxy makes it. -/
inductive ForeseesCall (setting : Setting) (upper : State) (name : ClassName) (key : MethodKey)
    (cause : Cause) : Prop
  | answered (answers : key.space = .publicInstance → key.name.isProxy = false →
        upper.Answered name key.name)
      (own : key.space ≠ .publicInstance → upper.IsReached ⟨name, key.space, key.name⟩)
  | relayed {id : MethodId} (caller : cause = .method id) (added : ¬ setting.world.IsPlain id)

/-- The state of a run lies below the end of another run. -/
structure Under (setting : Setting) (state upper : State) : Prop where
  known : ∀ {name status}, state.status? name = some status → upper.IsSettledClass name
  classes : ∀ {name cls record}, state.class? name = some cls → upper.class? name = some record →
    cls.Under record
  reached : ∀ {id}, state.IsReached id → upper.IsReached id
  work : ∀ {task}, task ∈ state.work → upper.Foresees setting task
  parked : ∀ {name status task}, state.status? name = some status → task ∈ status.parked →
    upper.Foresees setting task

/-! ### Changes of the smaller run -/

namespace Under

variable (under : state.Under setting upper)

include under

/-- More tasks that are foreseen. -/
theorem extend {tasks : List Task} (foreseen : ∀ task ∈ tasks, upper.Foresees setting task)
    (errors : List Diagnostic) : (state.extend tasks errors).Under setting upper where
  known := under.known
  classes := under.classes
  reached := under.reached
  work mem := (List.mem_append.1 mem).elim under.work (foreseen _)
  parked := under.parked

/-- Fewer tasks, or other queues. -/
theorem of_work {rest : List Task} {wanted unlinked : List ClassName} (fewer : rest ⊆ state.work) :
    ({ state with work := rest, wanted, unlinked } : State).Under setting upper where
  known := under.known
  classes := under.classes
  reached := under.reached
  work mem := under.work (fewer mem)
  parked := under.parked

/-- A class that is linked or changed. -/
theorem revise {tasks : List Task} (settled : upper.IsSettledClass name)
    (below : ∀ {above}, upper.class? name = some above → record.Under above)
    (reached : ∀ {key entry}, record.method? key = some entry → entry.isReached = true →
      upper.IsReached ⟨name, key.space, key.name⟩)
    (foreseen : ∀ task ∈ tasks, upper.Foresees setting task) (errors : List Diagnostic) :
    (state.revise name record tasks errors).Under setting upper where
  known {other status} h := by
    rw [status?_revise] at h
    split at h
    · rename_i same
      exact same ▸ settled
    · exact under.known h
  classes {other cls above} found found' := by
    rw [class?_revise] at found
    split at found
    · rename_i same
      subst same
      cases found
      exact below found'
    · exact under.classes found found'
  reached {id} h := by
    obtain ⟨cls, found, entry, has, is_reached⟩ := isReached_iff.1 h
    rw [class?_revise] at found
    split at found
    · rename_i same
      subst same
      cases found
      exact reached has is_reached
    · exact under.reached (isReached_iff.2 ⟨cls, found, entry, has, is_reached⟩)
  work mem := (List.mem_append.1 mem).elim under.work (foreseen _)
  parked {other status task} h mem := by
    rw [status?_revise] at h
    split at h
    · cases h; cases mem
    · exact under.parked h mem

/-- A linked class that is changed but keeps its methods. -/
theorem update {tasks : List Task} (found : state.class? name = some cls)
    (methods : record.methods = cls.methods)
    (below : ∀ {above}, upper.class? name = some above → record.Under above)
    (foreseen : ∀ task ∈ tasks, upper.Foresees setting task) :
    (state.revise name record tasks []).Under setting upper := by
  refine under.revise (under.known (class?_eq_some.1 found)) below
    (fun {key entry} has reached => ?_) foreseen []
  have has : cls.method? key = some entry := by
    rw [ClassRecord.method?, ← methods]
    exact has
  exact under.reached (isReached_iff.2 ⟨cls, found, entry, has, reached⟩)

/-- A class that is not linked goes on to another status. -/
theorem setStatus {status : Status} (settled : upper.IsSettledClass name)
    (before : state.class? name = none) (after : status.record? = none)
    (foreseen : ∀ task ∈ status.parked, upper.Foresees setting task) :
    (state.setStatus name status).Under setting upper where
  known {other status} h := by
    rcases status_of_setStatus h with ⟨rfl, _⟩ | h
    · exact settled
    · exact under.known h
  classes found := under.classes (by rwa [class?_setStatus before after] at found)
  reached {id} h := by
    obtain ⟨cls, found, entry, has, reached⟩ := isReached_iff.1 h
    rw [class?_setStatus before after] at found
    exact under.reached (isReached_iff.2 ⟨cls, found, entry, has, reached⟩)
  work := under.work
  parked {other status task} h mem := by
    rcases status_of_setStatus h with ⟨_, rfl⟩ | h
    · exact foreseen task mem
    · exact under.parked h mem

/-- A summary is taken in. -/
theorem receive (settled : upper.IsSettledClass name)
    (unseen : ∀ status, state.status? name = some status → ∃ parked, status = .awaited parked)
    (summary : Option ClassSummary) : (state.receive name summary).Under setting upper := by
  obtain ⟨parked, same, before⟩ := receive_of_unseen unseen summary
  have foreseen : ∀ task ∈ (Status.loaded summary parked).parked,
      upper.Foresees setting task := by
    intro task mem
    obtain ⟨_, h, waits⟩ := before task mem
    exact under.parked h waits
  rw [same]
  exact (under.setStatus settled (class?_eq_none_of_unseen unseen) rfl foreseen).of_work
    (List.Subset.refl _)

end Under

end State

/-- A call of a method that nothing declares with code is answered by an absent or abstract one. -/
theorem State.Final.reached_of_lacking (final : state.Final setting) (fair : setting.IsFair)
    (direct : method.isProxy = false) (lacking : setting.world.LacksCode name method)
    (answered : state.Answered name method) (found : state.class? name = some cls) :
    state.IsReached ⟨name, .publicInstance, method⟩ := by
  have valid := final.order.valid
  have bridged := State.bridged_of_reached fair final.order.reached
  cases answered with
  | implemented implementor =>
    exact absurd implementor (lacking.not_implementor direct fair valid bridged found)
  | default _ owners =>
    cases ((valid.defaultOwners_eq found method).trans lacking.owners).symm.trans owners
  | missing _ _ reached => exact reached

section

variable (full : ∀ fact, setting.facts fact) (fair : setting.IsFair)
  (final : upper.Final { setting with requirement := more }) (valid : state.Valid setting)
  (under : state.Under setting upper)

include final

theorem State.Foresees.isSettledClass (foresees : upper.Foresees setting task) :
    upper.IsSettledClass task.cls := by
  cases foresees with
  | served _ serves => exact serves.settled
  | entered _ entry => exact final.isSettledClass_of_entry entry
  | relayed settled => exact settled

include valid under

/-- What is linked is linked in the larger run, and in the same way. -/
theorem State.Under.exists_linked (found : state.class? name = some cls) :
    ∃ record, upper.class? name = some record ∧ record.fresh = cls.fresh :=
  final.exists_linked (under.known (State.class?_eq_some.1 found)) (valid.follows.links found)

/-! ### Where calls land -/

include full fair

/-- Code that a call leads to is reachable in the larger run, if the call is answered there. -/
theorem Landing.reached_of_code (allowed : setting.allow = true)
    (linked : state.class? name = some record) {errors : List Diagnostic}
    (landing : Landing state name cause ⟨.publicInstance, method⟩ owner cls entry errors)
    (direct : method.isProxy = false)
    (declared : Implementor setting.world.classes method owner owner)
    (answered : upper.Answered name method) : upper.IsReached ⟨owner, .publicInstance, method⟩ := by
  obtain ⟨above, found', fresh_eq⟩ := under.exists_linked final valid linked
  have wider : Setting.IsFair { setting with requirement := more } :=
    ⟨fair.rooted, fun _ _ => full _, .inl full⟩
  have reached : Implementor setting.world.classes method name owner →
      upper.IsReached ⟨owner, .publicInstance, method⟩ := fun declared =>
    final.reached_of_declared wider direct declared answered found'
  have undeclared : (∀ owner, ¬ Implementor state.class? method name owner) →
      ∀ owner, ¬ Implementor setting.world.classes method name owner := by
    intro lacks owner declared
    obtain ⟨nearest, implementor⟩ := valid.exists_implementor fair linked declared
    exact lacks nearest implementor
  cases landing with
  | resolved resolved =>
    cases resolved with
    | inherited implementor =>
      exact reached ((valid.implementor_declared_iff implementor owner).2 declared)
    | default lacks owners bare =>
      -- Bridges can be added, so the default method is called itself on interfaces only.
      rcases bare with bare | ⟨cls, at_, kind⟩
      · rw [valid.allow, allowed] at bare
        cases bare
      obtain rfl := Option.some.inj (linked.symm.trans at_)
      have kind : above.kind = .interface := (ClassRecord.kind_of_fresh fresh_eq).trans kind
      have owners := (valid.defaultOwners_eq linked _).symm.trans owners
      exact final.reached_of_default kind (undeclared lacks) owners answered found'
    | missing lacks => exact absurd declared (undeclared lacks.lacks name)
    | bridge _ _ lacks => exact absurd declared (undeclared lacks name)
  | own | absent => exact reached declared
  | proxy _ isProxy =>
    rw [direct] at isProxy
    cases isProxy

/-- So is the absent or abstract method that a call leads to where there is no code. -/
theorem Landing.reached_of_lacking (bridged : state.Bridged setting)
    (linked : state.class? name = some record) (found : state.class? owner = some cls)
    {errors : List Diagnostic}
    (landing : Landing state name cause ⟨.publicInstance, method⟩ owner cls entry errors)
    (direct : method.isProxy = false) (lacking : setting.world.LacksCode owner method)
    (answered : upper.Answered name method) : upper.IsReached ⟨owner, .publicInstance, method⟩ := by
  have wider : Setting.IsFair { setting with requirement := more } :=
    ⟨fair.rooted, fun _ _ => full _, .inl full⟩
  obtain ⟨above, found', _⟩ := under.exists_linked final valid linked
  have missed : setting.world.LacksCode name method →
      upper.IsReached ⟨name, .publicInstance, method⟩ := fun lacking =>
    final.reached_of_lacking wider direct lacking answered found'
  have codeless : ∀ {entry}, cls.method? ⟨.publicInstance, method⟩ = some entry →
      ¬ entry.isConcrete = true := fun has concrete =>
    lacking.not_implementor direct fair valid bridged found (.here found (by
      rw [ClassRecord.hasConcrete, has, Option.any_some, concrete]))
  cases landing with
  | resolved resolved =>
    cases resolved with
    | inherited _ has concrete | default _ _ _ _ has concrete =>
      exact absurd concrete (codeless has)
    | missing => exact missed lacking
    | bridge _ _ _ owners =>
      cases ((valid.defaultOwners_eq linked method).trans lacking.owners).symm.trans owners
  | own | absent => exact missed lacking
  | proxy _ isProxy =>
    rw [direct] at isProxy
    cases isProxy

/-- A plain method that a call leads to is reachable in the larger run, if the call is answered
there. -/
theorem Landing.reached_above (allowed : setting.allow = true) (bridged : state.Bridged setting)
    (linked : state.class? name = some record) (found : state.class? owner = some cls)
    {errors : List Diagnostic} (landing : Landing state name cause key owner cls entry errors)
    (plain : setting.world.IsPlain ⟨owner, key.space, key.name⟩)
    (answered : key.space = .publicInstance → key.name.isProxy = false →
      upper.Answered name key.name)
    (own : key.space ≠ .publicInstance → upper.IsReached ⟨name, key.space, key.name⟩) :
    upper.IsReached ⟨owner, key.space, key.name⟩ := by
  by_cases space : key.space = .publicInstance
  · obtain ⟨_, method⟩ := key
    obtain rfl : _ = Namespace.publicInstance := space
    have direct := plain.direct rfl
    rcases plain.bare rfl with declared | lacking
    · exact landing.reached_of_code full fair final valid under allowed linked direct declared
        (answered rfl direct)
    · exact landing.reached_of_lacking full fair final valid under bridged linked found direct
        lacking (answered rfl direct)
  · cases landing with
    | resolved | proxy => exact absurd rfl space
    | own | absent => exact own space

omit full fair in
/-- What follows from the first call of a method that the class has got is foreseen. -/
theorem State.Under.foresees_body (coherent : setting.world.IsCoherent)
    (found : state.class? owner = some cls) (has : cls.method? key = some entry)
    (first : ¬ entry.isReached = true) (reached : upper.IsReached ⟨owner, key.space, key.name⟩)
    (mem : task ∈ State.methodTasks cls entry) : upper.Foresees setting task := by
  cases (valid.classes found).entries has with
  | @declared declared declares id present isAbstract own =>
    simp only [State.methodTasks, own, present, if_true, id] at mem
    split at mem
    · rename_i code lists
      obtain ⟨demand, demands, same⟩ := Demands.mem_tasks.1 mem
      by_cases concrete : declared.isConcrete = true
      · obtain ⟨above, found', fresh_eq⟩ := under.exists_linked final valid found
        rw [← fresh_eq] at declares
        rw [← ClassRecord.summary_of_fresh fresh_eq] at lists
        exact .served (by rw [same])
          (final.serves_body found' declares concrete reached lists demands)
      · -- An abstract method may be called, but it has no code that would demand anything.
        obtain ⟨summary, known, lists⟩ := Option.bind_eq_some_iff.1 lists
        obtain rfl := valid.follows.name_eq found
        have isAbstract' : declared.isAbstract = true := by
          have present := (ClassRecord.declared_shape declares).2.1
          simpa [MethodRecord.isConcrete, present] using concrete
        have demandless := coherent (valid.follows.summary_eq found ▸ known)
          (by simpa [ClassRecord.method?, ClassRecord.fresh, known] using declares) lists
          isAbstract'
        rw [demandless] at demands
        cases demands
    · cases mem
  | missing _ _ isPresent own =>
    simp [State.methodTasks, own, isPresent] at mem
  | added _ _ _ _ _ _ _ _ _ _ reached => exact absurd reached first

omit full in
/-- What follows from a call is foreseen. -/
theorem Landing.foresees (coherent : setting.world.IsCoherent)
    (found : state.class? owner = some cls) {errors : List Diagnostic}
    (landing : Landing state name cause key owner cls entry errors)
    (reached : upper.IsReached ⟨owner, key.space, key.name⟩) (mem : task ∈ cls.callTasks entry) :
    upper.Foresees setting task := by
  unfold ClassRecord.callTasks at mem
  split at mem
  · cases mem
  rename_i first
  have got : ∀ {entry}, cls.method? key = some entry → ¬ entry.isReached = true →
      task ∈ State.methodTasks cls entry → upper.Foresees setting task := fun has first mem =>
    under.foresees_body final valid coherent found has first reached mem
  have settled : ∀ {name cls}, state.class? name = some cls → upper.IsSettledClass name :=
    fun found => under.known (State.class?_eq_some.1 found)
  cases landing with
  | own has => exact got has first mem
  | absent => cases mem
  | proxy _ isProxy =>
    obtain rfl := List.mem_singleton.1 mem
    refine .relayed (settled found) rfl (fun plain => ?_) (.inr ⟨_, rfl⟩)
    cases isProxy.symm.trans (plain.direct rfl)
  | @resolved method _ _ _ _ resolved =>
    cases resolved with
    | inherited _ has | default _ _ _ _ has => exact got has first mem
    | missing =>
      cases has : cls.method? ⟨.publicInstance, method⟩ with
      | some entry =>
        rw [has] at first mem
        exact got has first mem
      | none =>
        rw [has] at mem
        cases mem
    | @bridge interface others _ _ _ lacks owners =>
      obtain rfl := List.mem_singleton.1 mem
      obtain ⟨_, _, found', _⟩ := State.exists_of_defaultOwners valid.follows found owners
      refine .relayed (settled found') rfl (fun plain => ?_) (.inl ⟨_, rfl⟩)
      rcases plain.bare rfl with declared | lacking
      · obtain ⟨nearest, implementor⟩ := valid.exists_implementor fair found declared
        exact lacks nearest implementor
      · cases ((valid.defaultOwners_eq found method).trans lacking.owners).symm.trans owners

/-- A call that is foreseen leads to a state below the larger run. -/
theorem State.Under.lands (coherent : setting.world.IsCoherent) (allowed : setting.allow = true)
    (bridged : state.Bridged setting) (linked : state.class? name = some record)
    (lands : state.Lands name key cause next)
    (relays : ∀ id, Relayed setting.world next.method? id → upper.IsReached id)
    (foresees : upper.ForeseesCall setting name key cause) : next.Under setting upper := by
  cases lands with
  | @intro owner cls entry errors found landing =>
    have called : (state.called owner cls key entry cause errors).method?
        ⟨owner, key.space, key.name⟩ = some (entry.calledBy cause) := by
      rw [State.method?_called found, if_pos ⟨rfl, rfl⟩]
    -- The larger run relays what is not plain, and what a method that is not plain calls. Only the
    -- rest has to be found out from how the call is answered there.
    have reached : upper.IsReached ⟨owner, key.space, key.name⟩ := by
      by_cases plain : setting.world.IsPlain ⟨owner, key.space, key.name⟩
      · cases foresees with
        | answered answers own =>
          exact landing.reached_above full fair final valid under allowed bridged linked found
            plain answers own
        | relayed caller added =>
          subst caller
          exact relays _ ⟨_, called, rfl, .inr ⟨_, mem_recordOnce.2 (.inr rfl), added⟩⟩
      · exact relays _ ⟨_, called, rfl, .inl plain⟩
    refine under.revise (under.known (State.class?_eq_some.1 found)) (fun found' => ?_)
      (fun {other method} has is_reached => ?_)
      (fun task mem => landing.foresees fair final valid under coherent found reached mem) errors
    · have below := under.classes found found'
      exact ⟨below.uses, below.hasInstances, below.calls⟩
    · rw [ClassRecord.method?_withCall] at has
      split at has
      · rename_i same
        subst same
        exact reached
      · exact under.reached (State.isReached_iff.2 ⟨cls, found, method, has, is_reached⟩)

end

end ClassLinker
