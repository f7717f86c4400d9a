import ClassLinker.Proofs.Cycles

/-!
# The accounts of a run

No class is loaded twice, and no task is lost or done twice. `History.Balances` compares what a run
has done with what its state holds, class by class:

* the classes that it has asked the loader for are those that are loaded, linked or failed, each
  once, and those that are awaited are wanted;
* the tasks queued for a class are those that have been done, then those parked with the class, then
  those on the list, in this order, as long as the class has not failed; before it is linked, none
  has been done.

Linking hands the parked tasks on (`Linking.handsOn`), doing a task takes it from the front
(`State.InOrder.handles`), and so the accounts of a run balance at every step (`Course.balances`)
and say in the end that everything has been done (`analyze_accounts`).
-/

namespace ClassLinker

variable {setting : Setting} {state next : State} {name other : ClassName} {task : Task}
variable {tasks rest : List Task} {allow : Bool} {requirement : Requirement}
variable {loader before after : Loader}

/-! ### The tasks for a class -/

/-- The tasks of a list that are for a class, in order. -/
def tasksFor (name : ClassName) (tasks : List Task) : List Task :=
  tasks.filter fun task => task.cls = name

@[simp] theorem tasksFor_nil (name : ClassName) : tasksFor name [] = [] := rfl

@[simp] theorem tasksFor_append (name : ClassName) (first second : List Task) :
    tasksFor name (first ++ second) = tasksFor name first ++ tasksFor name second :=
  List.filter_append ..

theorem tasksFor_cons (name : ClassName) (task : Task) (rest : List Task) :
    tasksFor name (task :: rest) = tasksFor name [task] ++ tasksFor name rest :=
  tasksFor_append name [task] rest

theorem tasksFor_eq_self (own : ∀ task ∈ tasks, task.cls = name) : tasksFor name tasks = tasks :=
  List.filter_eq_self.2 fun task mem => decide_eq_true (own task mem)

theorem tasksFor_eq_nil (others : ∀ task ∈ tasks, task.cls ≠ name) : tasksFor name tasks = [] :=
  List.filter_eq_nil_iff.2 fun task mem => by simpa using others task mem

@[simp] theorem tasksFor_singleton_self (task : Task) : tasksFor task.cls [task] = [task] :=
  tasksFor_eq_self (by simp)

theorem tasksFor_singleton_of_ne (ne : task.cls ≠ name) : tasksFor name [task] = [] :=
  tasksFor_eq_nil (by simpa using ne)

namespace State

/-- The tasks parked with a class. -/
def parkedWith (state : State) (name : ClassName) : List Task :=
  ((state.status? name).map Status.parked).getD []

/-- The tasks that wait for a class, in the order in which they are to be done: those parked with
the class are put on the list as soon as it is linked. -/
def waitingFor (state : State) (name : ClassName) : List Task :=
  state.parkedWith name ++ tasksFor name state.work

theorem parkedWith_of_status {status : Status} (h : state.status? name = some status) :
    state.parkedWith name = status.parked := by
  simp [parkedWith, h]

theorem parkedWith_of_new (new : state.status? name = none) : state.parkedWith name = [] := by
  simp [parkedWith, new]

theorem parkedWith_of_linked {cls : ClassRecord} (found : state.class? name = some cls) :
    state.parkedWith name = [] :=
  parkedWith_of_status (class?_eq_some.1 found)

theorem parkedWith_setStatus (state : State) (name other : ClassName) (status : Status) :
    (state.setStatus name status).parkedWith other =
      if name = other then status.parked else state.parkedWith other := by
  unfold parkedWith
  rw [status?_setStatus]
  split <;> rfl

/-! ### Linking -/

/-- The tasks on the list are for linked classes, and the others are parked where they belong. -/
structure Sorted (state : State) : Prop where
  own : ∀ {name task}, task ∈ state.parkedWith name → task.cls = name
  ready : ∀ {task}, task ∈ state.work → ∃ cls, state.class? task.cls = some cls

/-- The same tasks wait for every class that has not failed. -/
structure HandsOn (before after : State) : Prop where
  sorted : after.Sorted
  waiting : ∀ {name}, after.status? name ≠ some .failed →
    after.waitingFor name = before.waitingFor name

/-- Nothing is handed on where only classes that are not linked fail or change their status. -/
theorem Sorted.keep (sorted : state.Sorted) (work : next.work = state.work)
    (linked : next.class? = state.class?)
    (parked : ∀ name, next.status? name = some .failed ∨
      next.parkedWith name = state.parkedWith name) : state.HandsOn next := by
  refine ⟨⟨fun {name task} mem => ?_, fun mem => ?_⟩, fun {name} unfailed => ?_⟩
  · rcases parked name with failed | same
    · rw [parkedWith_of_status failed] at mem
      cases mem
    · rw [same] at mem
      exact sorted.own mem
  · rw [work] at mem
    rw [linked]
    exact sorted.ready mem
  · unfold waitingFor
    rw [work, (parked name).resolve_left unfailed]

/-- A class that is linked hands over the tasks parked with it. -/
theorem Sorted.revise (sorted : state.Sorted) {summary : Option ClassSummary} {parked : List Task}
    (status : state.status? name = some (.loaded summary parked)) (record : ClassRecord)
    (errors : List Diagnostic) : state.HandsOn (state.revise name record parked errors) := by
  have parked_eq : state.parkedWith name = parked := parkedWith_of_status status
  have own : ∀ task ∈ parked, task.cls = name := by
    intro task mem
    rw [← parked_eq] at mem
    exact sorted.own mem
  have parkedWith_eq : ∀ other, (state.revise name record parked errors).parkedWith other =
      if name = other then [] else state.parkedWith other :=
    fun other => parkedWith_setStatus state name other (.linked record)
  refine ⟨⟨fun {other task} mem => ?_, fun {task} mem => ?_⟩, fun {other} _ => ?_⟩
  · rw [parkedWith_eq] at mem
    split at mem
    · cases mem
    · exact sorted.own mem
  · rw [class?_revise]
    split
    · exact ⟨record, rfl⟩
    · rename_i ne
      rcases List.mem_append.1 mem with before | handed
      · exact sorted.ready before
      · exact absurd (own task handed).symm ne
  · show (state.revise name record parked errors).parkedWith other ++
      tasksFor other (state.work ++ parked) = state.parkedWith other ++ tasksFor other state.work
    rw [parkedWith_eq, tasksFor_append]
    by_cases same : name = other
    · subst same
      -- There is no task on the list for a class that has not been linked yet.
      have none_ready : tasksFor name state.work = [] := by
        apply tasksFor_eq_nil
        rintro task mem rfl
        obtain ⟨cls, found⟩ := sorted.ready mem
        rw [class?_eq_none_of_status status rfl] at found
        cases found
      rw [if_pos rfl, none_ready, parked_eq, tasksFor_eq_self own]
      simp
    · have apart : tasksFor other parked = [] :=
        tasksFor_eq_nil fun task mem is_other => same ((own task mem).symm.trans is_other)
      rw [if_neg same, apart, List.append_nil]

end State

theorem LinkStep.handsOn (step : LinkStep setting state next) (sorted : state.Sorted) :
    state.HandsOn next := by
  cases step with
  | absent status => exact sorted.revise status _ _
  | link _ status => exact sorted.revise status _ _
  | @fail name _ _ _ status =>
    refine sorted.keep rfl
      (State.class?_setStatus (State.class?_eq_none_of_status status rfl) rfl) fun other => ?_
    by_cases same : name = other
    · exact .inl (by rw [State.status?_setStatus, if_pos same])
    · exact .inr (by rw [State.parkedWith_setStatus, if_neg same])
  | @cycle first rest _ loaded =>
    refine sorted.keep (by rw [State.failCycle_eq]) (State.class?_failCycle _ loaded)
      fun other => ?_
    unfold State.parkedWith
    rw [State.status?_failCycle]
    by_cases mem : other ∈ first :: rest
    · exact .inl (if_pos mem)
    · exact .inr (by rw [if_neg mem])

/-- Linking neither adds nor drops tasks, except that failed classes drop theirs. -/
theorem Linking.handsOn (linking : Linking setting state next) (sorted : state.Sorted) :
    state.HandsOn next := by
  cases linking with
  | settle step => exact step.handsOn sorted
  | @request child parent _ new =>
    refine sorted.keep rfl (State.class?_setStatus (State.class?_eq_none_of_new new) rfl)
      fun other => .inr ?_
    rw [show (state.await parent []).parkedWith other = _ from State.parkedWith_setStatus ..]
    split
    · rename_i same
      rw [← same, State.parkedWith_of_new new]
      rfl
    · rfl
  | queue => exact sorted.keep rfl rfl fun _ => .inr rfl

theorem Linkings.handsOn (linkings : Linkings setting state next) (sorted : state.Sorted) :
    state.HandsOn next := by
  induction linkings with
  | refl => exact ⟨sorted, fun _ => rfl⟩
  | tail _ linking ih =>
    have late := linking.handsOn ih.sorted
    refine ⟨late.sorted, fun {name} unfailed => ?_⟩
    rw [late.waiting unfailed, ih.waiting]
    exact fun failed => unfailed ((Changes.grows linking.changes).failed failed)

/-- Linking loads no class. -/
theorem Linking.isAvailable_eq (linking : Linking setting state next) (name : ClassName) :
    next.isAvailable name = state.isAvailable name := by
  cases linking with
  | settle step =>
    rcases step.progress.status name with same | ⟨loaded, settled⟩
    · simp only [State.isAvailable, same]
    · obtain ⟨summary, parked, status⟩ := State.isLoaded_iff.1 loaded
      rw [settled.isAvailable]
      simp [State.isAvailable, status]
  | @request child parent _ new =>
    have same : state.request parent = state.await parent [] := by simp only [State.request, new]
    rw [← same]
    exact State.isAvailable_request parent name
  | queue => rfl

theorem Linkings.isAvailable_eq (linkings : Linkings setting state next) (name : ClassName) :
    next.isAvailable name = state.isAvailable name := by
  induction linkings with
  | refl => rfl
  | tail _ linking ih => rw [linking.isAvailable_eq, ih]

/-! ### Taking in summaries -/

namespace State

/-- Taking in the summaries of awaited classes leaves their tasks parked. -/
theorem receiveAll_spec {answers : List (ClassName × Except LoadError (Option ClassSummary))}
    {after : State} (received : state.receiveAll answers = .ok after)
    (nodup : (answers.map Prod.fst).Nodup)
    (awaited : ∀ name ∈ answers.map Prod.fst, ∃ parked,
      state.status? name = some (.awaited parked)) :
    after.work = state.work ∧ ∀ name, after.parkedWith name = state.parkedWith name ∧
      (after.isAvailable name = true ↔
        state.isAvailable name = true ∨ name ∈ answers.map Prod.fst) := by
  induction answers generalizing state with
  | nil =>
    cases received
    exact ⟨rfl, fun name => ⟨rfl, by simp⟩⟩
  | cons answer rest ih =>
    obtain ⟨first, _ | summary⟩ := answer
    · cases received
    obtain ⟨fresh, nodup⟩ := List.nodup_cons.1 nodup
    obtain ⟨parked, status⟩ := awaited first List.mem_cons_self
    have same : state.receive first summary =
        { state.setStatus first (.loaded summary parked) with
          unlinked := state.unlinked ++ [first] } := by
      simp only [receive, status]
      rfl
    have status?_eq : ∀ other, (state.receive first summary).status? other =
        if first = other then some (.loaded summary parked) else state.status? other := by
      intro other
      rw [same]
      exact status?_setStatus ..
    obtain ⟨work, parks⟩ := ih received nodup fun other mem => by
      rw [status?_eq, if_neg (by rintro rfl; exact fresh mem)]
      exact awaited other (List.mem_cons_of_mem _ mem)
    refine ⟨work, fun other => ?_⟩
    obtain ⟨parked_eq, available⟩ := parks other
    rw [parked_eq, available]
    by_cases is_first : first = other
    · subst is_first
      simp [parkedWith, isAvailable, status?_eq, status, Status.parked]
    · simp [parkedWith, isAvailable, status?_eq, is_first, Ne.symm is_first]

/-! ### Doing a task -/

end State

theorem Change.work_prefix (change : Change setting state next) : state.work <+: next.work := by
  cases change with
  | update | extend | absent | link => exact List.prefix_append ..
  | await | park | parkLoaded | receive | queue | fail => exact List.prefix_rfl

/-- What is new on the list comes after what is there. -/
theorem Changes.work_prefix (changes : Changes setting state next) : state.work <+: next.work := by
  induction changes with
  | refl => exact List.prefix_rfl
  | tail _ change ih => exact ih.trans change.work_prefix

namespace State

/-- Doing something with linked classes only leaves the others as they are. -/
theorem SameQueue.keeps (same : state.SameQueue next) (grows : state.Grows next) :
    next.parkedWith = state.parkedWith ∧ next.isAvailable = state.isAvailable := by
  have keeps : ∀ name, next.parkedWith name = state.parkedWith name ∧
      next.isAvailable name = state.isAvailable name := by
    intro name
    cases linked : state.class? name with
    | none => simp [parkedWith, isAvailable, same.status linked]
    | some record =>
      obtain ⟨later, found, _⟩ := grows.classes linked
      rw [parkedWith_of_linked linked, parkedWith_of_linked found]
      exact ⟨rfl, (IsSettledClass.isAvailable (.inl ⟨later, found⟩)).trans
        (IsSettledClass.isAvailable (.inl ⟨record, linked⟩)).symm⟩
  exact ⟨funext fun name => (keeps name).1, funext fun name => (keeps name).2⟩

/-- A task that is parked comes after those that are parked already. -/
theorem parkedWith_of_parks {status : Status}
    (parks : status.parked = state.parkedWith task.cls ++ [task]) (name : ClassName) :
    (state.setStatus task.cls status).parkedWith name =
      state.parkedWith name ++ tasksFor name [task] := by
  rw [parkedWith_setStatus]
  by_cases same : task.cls = name
  · subst same
    rw [if_pos rfl, parks, tasksFor_singleton_self]
  · rw [if_neg same, tasksFor_singleton_of_ne same, List.append_nil]

theorem isAvailable_of_parks {status : Status}
    (same : (state.setStatus task.cls status).isAvailable task.cls = state.isAvailable task.cls) :
    (state.setStatus task.cls status).isAvailable = state.isAvailable := by
  funext other
  by_cases at_ : task.cls = other
  · rw [← at_, same]
  · simp [isAvailable, at_]

theorem done_of_linked {cls : ClassRecord} (found : state.class? task.cls = some cls) :
    state.done task = [task] := by
  simp [done, found]

theorem done_of_unlinked (unlinked : state.class? task.cls = none) : state.done task = [] := by
  simp [done, unlinked]

/-- What becomes of a task: it is done, it is dropped, or it is parked. No class is loaded by it. -/
theorem perform_cases (fair : setting.IsFair) (valid : state.Valid setting)
    (consistent : state.Consistent) (justified : setting.Justifies task) :
    (state.perform task).isAvailable = state.isAvailable ∧
      ((∃ cls, state.class? task.cls = some cls) ∧
          (state.perform task).parkedWith = state.parkedWith ∨
        state.status? task.cls = some .failed ∧ state.perform task = state ∨
        state.class? task.cls = none ∧ ∀ name, (state.perform task).parkedWith name =
          state.parkedWith name ++ tasksFor name [task]) := by
  cases h : state.status? task.cls with
  | none =>
    have same : state.perform task = state.await task.cls [task] := by simp only [perform, h]
    rw [same]
    refine ⟨isAvailable_of_parks ?_, .inr (.inr ⟨class?_eq_none_of_new h, parkedWith_of_parks ?_⟩)⟩
    · simp [isAvailable, h]
    · simp [parkedWith_of_new h, Status.parked]
  | some status =>
    cases status with
    | awaited parked =>
      simp only [perform, h]
      refine ⟨isAvailable_of_parks ?_,
        .inr (.inr ⟨class?_eq_none_of_status h rfl, parkedWith_of_parks ?_⟩)⟩
      · simp [isAvailable, h]
      · simp [parkedWith_of_status h, Status.parked]
    | loaded summary parked =>
      simp only [perform, h]
      refine ⟨isAvailable_of_parks ?_,
        .inr (.inr ⟨class?_eq_none_of_status h rfl, parkedWith_of_parks ?_⟩)⟩
      · simp [isAvailable, h]
      · simp [parkedWith_of_status h, Status.parked]
    | failed =>
      have same : state.perform task = state := by simp only [perform, h]
      exact ⟨by rw [same], .inr (.inl ⟨rfl, same⟩)⟩
    | linked cls =>
      have found : state.class? task.cls = some cls := class?_eq_some.2 h
      have performs := (performs_linked fair valid consistent found justified).1
      obtain ⟨parked, available⟩ := performs.sameQueue.keeps (Changes.grows performs.changes)
      exact ⟨available, .inl ⟨⟨cls, found⟩, parked⟩⟩

/-- A task has been taken from the front of the list and handled, and the new tasks are put at its
end. Class by class, what was waiting is what has been done and what is waiting still. -/
structure Handles (before : State) (task : Task) (after : State) (new : List Task) : Prop where
  own : (∀ {name task}, task ∈ before.parkedWith name → task.cls = name) →
    ∀ {name task}, task ∈ after.parkedWith name → task.cls = name
  available : ∀ name, after.isAvailable name = before.isAvailable name
  grows : before.Grows after
  waiting : ∀ {name}, after.status? name ≠ some .failed →
    tasksFor name (before.done task) ++ after.waitingFor name =
      before.waitingFor name ++ tasksFor name new

theorem InOrder.handles (fair : setting.IsFair) (order : state.InOrder setting)
    (work : state.work = task :: rest) :
    ∃ new, (({ state with work := rest } : State).perform task).work = rest ++ new ∧
      state.Handles task (({ state with work := rest } : State).perform task) new := by
  let taken : State := { state with work := rest }
  obtain ⟨valid, consistent, justified⟩ := order.takes work
  have does := taken.performs fair valid consistent justified
  have takes : Move setting state taken := .take (work ▸ List.subset_cons_self ..)
  have grows : state.Grows (taken.perform task) := takes.grows.trans (Changes.grows does.changes)
  obtain ⟨new, new_eq⟩ := Changes.work_prefix does.changes
  refine ⟨new, new_eq.symm, ?_⟩
  have before_eq : ∀ name, state.waitingFor name =
      taken.parkedWith name ++ (tasksFor name [task] ++ tasksFor name rest) := by
    intro name
    rw [← tasksFor_cons, waitingFor, work]
    rfl
  have after_eq : ∀ name, (taken.perform task).waitingFor name =
      (taken.perform task).parkedWith name ++ (tasksFor name rest ++ tasksFor name new) := by
    intro name
    rw [← tasksFor_append, waitingFor, ← new_eq]
  obtain ⟨available, ⟨⟨cls, found⟩, parked⟩ | ⟨failed, dropped⟩ | ⟨unlinked, parked⟩⟩ :=
    taken.perform_cases fair valid consistent justified
  · have done : state.done task = [task] := done_of_linked found
    refine ⟨fun own _ _ mem => own (congrFun parked _ ▸ mem), congrFun available, grows,
      fun {name} _ => ?_⟩
    rw [before_eq, after_eq, parked, done]
    by_cases same : task.cls = name
    · subst same
      simp [parkedWith_of_linked found]
    · simp [tasksFor_singleton_of_ne same]
  · have done : state.done task = [] := done_of_unlinked (class?_eq_none_of_status failed rfl)
    have none_new : new = [] := by
      rw [dropped] at new_eq
      simpa [taken] using new_eq
    refine ⟨fun own _ _ mem => ?_, congrFun available, grows, fun {name} unfailed => ?_⟩
    · rw [dropped] at mem
      exact own mem
    have ne : task.cls ≠ name := by
      rintro rfl
      rw [dropped] at unfailed
      exact unfailed failed
    rw [before_eq, after_eq, dropped, done, none_new, tasksFor_singleton_of_ne ne]
    simp
  · have done : state.done task = [] := done_of_unlinked unlinked
    refine ⟨fun own {name other} mem => ?_, congrFun available, grows, fun {name} _ => ?_⟩
    · rw [parked] at mem
      rcases List.mem_append.1 mem with before | here
      · exact own before
      · exact of_decide_eq_true (List.mem_filter.1 here).2
    · rw [before_eq, after_eq, parked, done]
      simp

end State

/-! ### Balanced accounts -/

/-- What a run has done so far fits the state that it has come to. -/
structure History.Balances (history : History) (state : State) : Prop where
  asked : history.asked.Nodup
  available : ∀ {name}, name ∈ history.asked ↔ state.isAvailable name = true
  wanted : ∀ {name}, name ∈ state.wanted ↔ ∃ parked, state.status? name = some (.awaited parked)
  own : ∀ {name task}, task ∈ state.parkedWith name → task.cls = name
  idle : ∀ {name}, state.class? name = none → tasksFor name history.applied = []
  tasks : ∀ {name}, state.status? name ≠ some .failed →
    tasksFor name history.queued = tasksFor name history.applied ++ state.waitingFor name

namespace History.Balances

variable {history : History}

/-- Doing a task moves it from those that wait to those that have been done. -/
theorem perform (balances : history.Balances state) (fair : setting.IsFair)
    (order : state.InOrder setting) (work : state.work = task :: rest) :
    (history.step state (({ state with work := rest } : State).perform task)).Balances
      (({ state with work := rest } : State).perform task) := by
  obtain ⟨new, new_eq, handles⟩ := order.handles fair work
  have order' := order.perform fair work
  generalize ({ state with work := rest } : State).perform task = next at *
  have step_eq : history.step state next =
      { history with
        queued := history.queued ++ new
        applied := history.applied ++ state.done task } := by
    simp [History.step, work, new_eq, State.done]
  have unfailed_before : ∀ {name}, next.status? name ≠ some .failed →
      state.status? name ≠ some .failed := fun unfailed failed =>
    unfailed (handles.grows.failed failed)
  rw [step_eq]
  refine ⟨balances.asked, fun {name} => ?_, order'.queued.wanted, handles.own balances.own,
    fun {name} unlinked => ?_, fun {name} unfailed => ?_⟩
  · rw [handles.available]
    exact balances.available
  · have unlinked_before := handles.grows.unlinked unlinked
    rw [tasksFor_append, balances.idle unlinked_before, List.nil_append]
    cases linked : state.class? task.cls with
    | none =>
      rw [State.done_of_unlinked linked]
      rfl
    | some cls =>
      rw [State.done_of_linked linked]
      apply tasksFor_singleton_of_ne
      rintro rfl
      rw [unlinked_before] at linked
      cases linked
  · rw [tasksFor_append, tasksFor_append, balances.tasks (unfailed_before unfailed),
      List.append_assoc, ← handles.waiting unfailed, List.append_assoc]

/-- Loading the classes that are wanted asks for each of them, and no task is lost. -/
theorem loadWanted (balances : history.Balances state) (fair : setting.IsFair)
    (order : state.InOrder setting) (world : setting.world = before.knows)
    (idle : state.work = []) (loads : (state.loadWanted before).1 = .ok next) :
    (history.step state next).Balances next := by
  have order' := order.loadWanted fair world loads
  obtain ⟨answers, middle, loads⟩ := order.loads world loads
  have linkings : Linkings setting middle next := by
    rw [loads.next_eq]
    exact State.linkings_linkAvailable fair
      (Changes.valid fair loads.advances.changes order.valid) (loads.rootFirst order.rooted)
      loads.asks
  obtain ⟨work, parks⟩ := State.receiveAll_spec loads.received loads.nodup loads.awaited
  rw [loads.names] at parks
  have work : middle.work = [] := work.trans idle
  have sorted : middle.Sorted := by
    refine ⟨fun {name task} mem => ?_, fun mem => ?_⟩
    · rw [(parks name).1] at mem
      exact balances.own mem
    · rw [work] at mem
      cases mem
  have handsOn := linkings.handsOn sorted
  have grows : state.Grows next :=
    Changes.grows (loads.advances.changes.trans (Linkings.changes linkings))
  have step_eq : history.step state next =
      { history with asked := history.asked ++ state.wanted } := by
    simp [History.step, idle]
  have wanted_unavailable : ∀ {name}, name ∈ state.wanted → state.isAvailable name = false := by
    intro name mem
    obtain ⟨parked, status⟩ := order.queued.wanted.1 mem
    simp [State.isAvailable, status]
  rw [step_eq]
  refine ⟨?_, fun {name} => ?_, order'.queued.wanted, handsOn.sorted.own, fun {name} unlinked => ?_,
    fun {name} unfailed => ?_⟩
  · refine List.nodup_append.2 ⟨balances.asked, order.queued.nodup, ?_⟩
    rintro name asked _ wanted rfl
    rw [balances.available, wanted_unavailable wanted] at asked
    cases asked
  · rw [linkings.isAvailable_eq, (parks name).2, List.mem_append, balances.available]
    rfl
  · exact balances.idle (grows.unlinked unlinked)
  · have unfailed_before : state.status? name ≠ some .failed := fun failed =>
      unfailed (grows.failed failed)
    rw [balances.tasks unfailed_before, handsOn.waiting unfailed]
    simp only [State.waitingFor, work, idle, (parks name).1]
    rfl

/-- In the beginning only the root class has been asked for, and nothing is parked. -/
theorem start (fair : setting.IsFair) {root : ClassSummary}
    (known : setting.world .object = some root) (isRoot : root.isRoot = true) :
    Balances
      { asked := [.object]
        queued := (State.start setting.allow root setting.requirement setting.entryPoints).work
        applied := [] }
      (State.start setting.allow root setting.requirement setting.entryPoints) := by
  let rooted := State.rootLoaded setting.allow root
  have valid := Changes.valid fair (State.advances_rootLoaded known).changes
    (State.valid_empty setting)
  have linkings : Linkings setting rooted rooted.linkAvailable :=
    State.linkings_linkAvailable fair valid (State.rootFirst_rootLoaded _ _)
      (State.asks_rootLoaded _ _)
  have nothing_parked : ∀ name, rooted.parkedWith name = [] := by
    intro name
    simp only [State.parkedWith, rooted, State.status?_rootLoaded]
    split <;> rfl
  have sorted : rooted.Sorted := by
    refine ⟨fun {name task} mem => ?_, fun mem => by cases mem⟩
    rw [nothing_parked] at mem
    cases mem
  have handsOn := linkings.handsOn sorted
  have order := State.inOrder_start fair known isRoot
  refine ⟨by simp, fun {name} => ?_, order.queued.wanted, handsOn.sorted.own, fun _ => rfl,
    fun {name} unfailed => ?_⟩
  · show name ∈ [ClassName.object] ↔ rooted.linkAvailable.isAvailable name = true
    rw [linkings.isAvailable_eq, List.mem_singleton]
    simp only [State.isAvailable, rooted, State.status?_rootLoaded]
    by_cases same : ClassName.object = name
    · simp [same]
    · simp [same, Ne.symm same]
  · have waiting : rooted.linkAvailable.waitingFor name = [] := by
      rw [handsOn.waiting unfailed, State.waitingFor, nothing_parked]
      rfl
    have parked : rooted.linkAvailable.parkedWith name = [] :=
      (List.append_eq_nil_iff.1 waiting).1
    show _ = [] ++ (rooted.linkAvailable.parkedWith name ++ _)
    rw [parked]
    rfl

end History.Balances

/-- The accounts of a run balance at every step. -/
theorem Course.balances {history : History}
    (course : Course allow requirement loader history state after) : history.Balances state := by
  induction course with
  | @start root after loads isRoot =>
    have known : loader.knows .object = some root :=
      (Loader.knows_of_loadSummary (congrArg Prod.fst loads)).symm
    exact History.Balances.start (Loader.isFair_settingFor ⟨root, known, isRoot⟩) known isRoot
  | step early _ steps ih =>
    have fair := early.reaches.isFair
    rcases State.step_cases steps with ⟨task, rest, work, rfl, _⟩ | ⟨work, loads, _⟩
    · exact ih.perform fair early.inOrder work
    · exact ih.loadWanted fair early.inOrder early.knows.symm work loads

/-! ### Classes that are wanted -/

/-- Each class is wanted once, and only if it has been asked for. -/
structure State.Wants (state : State) : Prop where
  nodup : state.wanted.Nodup
  known : ∀ {name}, name ∈ state.wanted → ∃ status, state.status? name = some status

theorem State.Wants.setStatus {status : Status} (wants : state.Wants) :
    (state.setStatus name status).Wants := by
  refine ⟨wants.nodup, fun {other} mem => ?_⟩
  rw [status?_setStatus]
  split
  · exact ⟨status, rfl⟩
  · exact wants.known mem

theorem Turn.wants (fair : setting.IsFair) (turn : Turn setting state next)
    (wants : state.Wants) : next.Wants := by
  have received : ∀ name summary, (state.receive name summary).Wants := fun _ _ =>
    ⟨wants.nodup, wants.setStatus.known⟩
  cases turn with
  | perform order work =>
    have queued := (order.perform fair work).queued
    exact ⟨queued.nodup, fun mem => let ⟨_, status⟩ := queued.wanted.1 mem; ⟨_, status⟩⟩
  | link linking =>
    cases linking with
    | settle step =>
      refine ⟨by rw [step.progress.wanted]; exact wants.nodup, fun {name} mem => ?_⟩
      rw [step.progress.wanted] at mem
      rcases step.progress.status name with same | ⟨_, settled⟩
      · rw [same]
        exact wants.known mem
      · exact State.exists_of_isAvailable settled.isAvailable
    | @request child parent _ new =>
      have fresh : parent ∉ state.wanted := by
        intro mem
        obtain ⟨status, h⟩ := wants.known mem
        rw [new] at h
        cases h
      refine ⟨List.nodup_append.2 ⟨wants.nodup, by simp, ?_⟩, fun {other} mem => ?_⟩
      · rintro name mem _ last rfl
        rw [List.mem_singleton.1 last] at mem
        exact fresh mem
      · rcases List.mem_append.1 mem with before | last
        · exact wants.setStatus.known before
        · rw [List.mem_singleton.1 last]
          exact ⟨_, (State.status?_await []).trans (if_pos rfl)⟩
    | queue => exact ⟨wants.nodup, wants.known⟩
  | handOver => exact ⟨List.nodup_nil, fun mem => by cases mem⟩
  | receive => exact received _ _
  | root => exact received _ _
  | ask => exact ⟨wants.nodup, wants.known⟩

/-- No class is ever wanted twice. -/
theorem Loader.Reaches.wants (reaches : loader.Reaches allow requirement state) : state.Wants := by
  have fair := reaches.isFair
  obtain ⟨_, turns⟩ := reaches
  induction turns with
  | refl => exact ⟨List.nodup_nil, fun mem => by cases mem⟩
  | tail _ turn ih => exact turn.wants fair ih

/-! ### The end of a run -/

/-- All classes that the run has come across have been loaded once. Every task queued has been done,
in order for each class, unless its class has failed, and then a cycle is reported. -/
structure History.Closes (history : History) (state : State) : Prop where
  asked : history.asked.Nodup
  touched : ∀ {name}, name ∈ history.asked ↔ ∃ status, state.status? name = some status
  done : ∀ {name cls}, state.class? name = some cls →
    tasksFor name history.applied = tasksFor name history.queued
  undone : ∀ {name}, state.class? name = none → tasksFor name history.applied = []
  dropped : ∀ {task}, task ∈ history.queued → state.class? task.cls = none →
    state.status? task.cls = some .failed ∧
      ∃ classes cause, .inheritanceCycle classes cause ∈ state.result.errors

theorem Course.closes {history : History}
    (course : Course allow requirement loader history state after)
    (settled : state.isSettled = true) : history.Closes state := by
  have balances := course.balances
  have order := course.inOrder
  obtain ⟨work, wanted⟩ : state.work = [] ∧ state.wanted = [] := by
    simpa [State.isSettled] using settled
  refine ⟨balances.asked, fun {name} => ?_, fun {name cls} found => ?_, balances.idle,
    fun {task} mem unlinked => ?_⟩
  · rw [balances.available]
    constructor
    · exact State.exists_of_isAvailable
    · rintro ⟨status, h⟩
      exact (order.isSettledClass settled h).isAvailable
  · have unfailed : state.status? name ≠ some .failed := by
      rw [State.class?_eq_some.1 found]
      simp
    rw [balances.tasks unfailed, State.waitingFor, State.parkedWith_of_linked found, work]
    simp
  · have failed : state.status? task.cls = some .failed := by
      by_contra unfailed
      -- A task that has not been done waits, but nothing waits in the end.
      have tasks := balances.tasks unfailed
      have parked : state.parkedWith task.cls = [] := by
        cases status : state.status? task.cls with
        | none => exact State.parkedWith_of_new status
        | some known =>
          rcases order.isSettledClass settled status with ⟨cls, found⟩ | failed
          · exact State.parkedWith_of_linked found
          · exact absurd failed unfailed
      rw [balances.idle unlinked, State.waitingFor, parked, work] at tasks
      have here : task ∈ tasksFor task.cls history.queued :=
        List.mem_filter.2 ⟨mem, decide_eq_true rfl⟩
      rw [tasks] at here
      cases here
    obtain ⟨classes, cause, reported⟩ := course.reaches.reportsCycles.reported failed
    exact ⟨failed, classes, cause, State.inheritanceCycle_mem_result.2 reported⟩

/-- No class is ever wanted twice, the accounts balance at every step of a run, and when an analysis
ends, nothing is left to do: it was idle, or refused after asking for the root class, or it is the
result of a run that has loaded every class once and done every task once, except those for classes
that have failed. -/
theorem analyze_accounts (allow : Bool) (requirement : Requirement) (loader : Loader) :
    (∀ {state}, loader.Reaches allow requirement state → state.wanted.Nodup) ∧
    (∀ {history state after}, Course allow requirement loader history state after →
      history.Balances state ∧ after = (loader.loadSummaries history.asked).2) ∧
    ∀ {analysis after}, analyze allow requirement loader = (.ok analysis, after) →
      (analysis.classes = ∅ ∧ (analysis.errors = [] ∧ after = loader ∨
        analysis.errors ∈ [[.missingRootClass], [.invalidRootClass]] ∧
          after = (loader.loadSummary .object).2)) ∨
      ∃ history state, Course allow requirement loader history state after ∧
        analysis = state.result ∧ history.Closes state ∧
        ∀ {name}, analysis.Touches loader requirement name → name ∈ history.asked := by
  refine ⟨fun reaches => reaches.wants.nodup, fun course => ⟨course.balances, course.loader_eq⟩,
    fun ends => ?_⟩
  rcases analyze_course ends with idle | ⟨history, state, course, settled, rfl⟩
  · exact .inl idle
  · refine .inr ⟨history, state, course, rfl, course.closes settled, fun touches => ?_⟩
    rw [course.balances.available]
    exact (course.isSettledClass_of_touches settled touches).isAvailable

/-- The classes on the cycle above the required class are asked for, and so the accounts are not
empty. -/
theorem analyze_accounts_cyclic :
    ∃ analysis after, analyze true (.typeData "test" ⟨"C"⟩) (Loader.ofDecls cyclic) =
        (.ok analysis, after) ∧
      ∃ history state,
        Course true (.typeData "test" ⟨"C"⟩) (Loader.ofDecls cyclic) history state after ∧
          analysis = state.result ∧ history.Closes state ∧ ⟨"A"⟩ ∈ history.asked := by
  obtain ⟨analysis, after, ends, touches⟩ := exists_touches_cyclic
  have accounts := (analyze_accounts true (.typeData "test" ⟨"C"⟩) (Loader.ofDecls cyclic)).2.2 ends
  rcases accounts with ⟨empty, _⟩ | ⟨history, state, course, result, closes, asked⟩
  · exact absurd empty touches.1
  · exact ⟨analysis, after, ends, history, state, course, result, closes, asked touches⟩

end ClassLinker
