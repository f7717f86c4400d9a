import ClassLinker.Proofs.Retention

/-!
# Where causes lead back to

A method becomes reachable with its first caller, and a class gets its first creator when instances
of it are asked for. At that time the caller or creator has been reached itself, so following first
callers and first creators leads back to the components and the exports:

* `State.Rooted` tells this of what calls methods, and `State.Creates` of what creates instances,
  which can also be a JavaScript class that extends the one created;
* `State.Backed` is the invariant: every task, caller, creator, noted call and error is backed by
  such a cause, except that the type data of the classes in the fields of a class, and errors about
  its parents, are due to the class itself.

Heads of lists stay while the lists grow at the end (`State.Remembers`), so nothing that leads back
to a root is lost. Each effect of a task is backed (`Effect.backed`), and so is every run
(`Turns.backed`).
-/

namespace ClassLinker

variable {setting : Setting} {state next : State} {task : Task}
variable {name other owner : ClassName} {cls record : ClassRecord} {key : MethodKey}
variable {entry : MethodRecord} {cause : Cause} {errors : List Diagnostic} {tasks : List Task}

/-! ### Causes that lead back -/

namespace State

/-- By first callers the cause leads back to a component or to the exports, by way of reachable
methods only. -/
inductive Rooted (state : State) : Cause → Prop
  | component (text : String) : Rooted state (.component text)
  | exports : Rooted state .exports
  | method {id : MethodId} {entry : MethodRecord} {first : Cause}
      (at_ : state.method? id = some entry) (reached : entry.isReached = true)
      (head : entry.callers.head? = some first) (earlier : state.Rooted first) :
      Rooted state (.method id)

/-- The same of a cause of instances, with first creators of classes among the steps. -/
inductive Creates (state : State) : Cause → Prop
  | call {cause : Cause} (rooted : state.Rooted cause) : Creates state cause
  | cls {name : ClassName} {cls : ClassRecord} {first : Cause}
      (found : state.class? name = some cls) (head : cls.creators.head? = some first)
      (earlier : state.Creates first) : Creates state (.cls name)

/-- There is a reason for the task. Only type data, which calls nothing, may be due to a class that
no instances have been asked for. -/
inductive BacksTask (state : State) (task : Task) : Prop
  | call (rooted : state.Rooted task.cause)
  | instances (asked : task.action = .fulfil (.use .instances))
      (creates : state.Creates task.cause)
  | typeData {name : ClassName} (asked : task.action = .fulfil (.use .typeData))
      (owned : task.cause = .cls name)

/-- The method has callers, each once and all of them leading back. -/
structure BacksMethod (state : State) (entry : MethodRecord) : Prop where
  nonempty : entry.callers ≠ []
  nodup : entry.callers.Nodup
  rooted : ∀ cause ∈ entry.callers, state.Rooted cause

/-- The creators of the class and the causes of its calls lead back, and instances have creators. -/
structure BacksClass (state : State) (cls : ClassRecord) : Prop where
  creators : ∀ cause ∈ cls.creators, state.Creates cause
  created : cls.uses.instances = true → cls.creators ≠ []
  calls : ∀ call ∈ cls.calls, state.Rooted call.2

/-- The cause of the error, if it has one, leads back or is a class. -/
def BacksError (state : State) (error : Diagnostic) : Prop :=
  ∀ cause, error.cause? = some cause → state.Rooted cause ∨ ∃ name, cause = .cls name

/-- The task is to be done or parked. -/
def Holds (state : State) (task : Task) : Prop :=
  task ∈ state.work ∨
    ∃ name status, state.status? name = some status ∧ task ∈ status.parked

/-- Everything that a run has come across is there for a reason. -/
structure Backed (state : State) : Prop where
  tasks : ∀ {task}, state.Holds task → state.BacksTask task
  methods : ∀ {id entry}, state.method? id = some entry → entry.isReached = true →
    state.BacksMethod entry
  classes : ∀ {name cls}, state.class? name = some cls → state.BacksClass cls
  errors : ∀ {error}, error ∈ state.errors → state.BacksError error

/-! ### What is remembered -/

/-- The callers of reachable methods and the creators of classes have only got more at the end. -/
structure Remembers (before after : State) : Prop where
  methods : ∀ {id entry}, before.method? id = some entry → entry.isReached = true →
    ∃ later, after.method? id = some later ∧ later.isReached = true ∧
      entry.callers <+: later.callers
  classes : ∀ {name cls}, before.class? name = some cls →
    ∃ record, after.class? name = some record ∧ cls.creators <+: record.creators

/-- The first of a list stays the first of a longer one. -/
theorem head?_of_longer {α : Type} {before after : List α} {first : α} (longer : before <+: after)
    (head : before.head? = some first) : after.head? = some first := by
  obtain ⟨more, rfl⟩ := longer
  rw [List.head?_append, head]
  rfl

namespace Remembers

theorem of_class?_eq (same : next.class? = state.class?) : state.Remembers next := by
  refine ⟨fun {id entry} at_ reached => ⟨entry, ?_, reached, List.prefix_rfl⟩,
    fun {name cls} found => ⟨cls, same ▸ found, List.prefix_rfl⟩⟩
  rw [State.method?_of_class?_eq same]
  exact at_

theorem of_retains (retains : state.Retains next) : state.Remembers next := by
  refine ⟨fun {id entry} at_ reached => ?_, fun found => ?_⟩
  · obtain ⟨cls, found, has⟩ := Option.bind_eq_some_iff.1 at_
    obtain ⟨record, found', keeps⟩ := retains.classes found
    obtain ⟨later, has', become⟩ := keeps.methods has
    refine ⟨later, ?_, ?_⟩
    · rw [method?, found', Option.bind_some]
      exact has'
    · rcases become with stays | bridges
      · exact ⟨stays.isReached reached, stays.callers⟩
      · -- A method that nothing has called is all that a bridge replaces.
        rw [bridges.isReached] at reached
        cases reached
  · obtain ⟨record, found', keeps⟩ := retains.classes found
    exact ⟨record, found', keeps.creators⟩

/-- More is learned of a class. -/
theorem of_learns (found : state.class? name = some cls) (learns : cls.Learns record)
    (tasks : List Task) (errors : List Diagnostic) :
    state.Remembers (state.revise name record tasks errors) := by
  refine ⟨fun {id entry} at_ reached => ⟨entry, ?_, reached, List.prefix_rfl⟩,
    fun {other known} found' => ?_⟩
  · rw [learns.method?_eq found]
    exact at_
  · rw [class?_revise]
    split
    · rename_i same
      subst same
      obtain rfl := Option.some.inj (found.symm.trans found')
      refine ⟨record, rfl, ?_⟩
      cases learns with
      | creator cause => exact prefix_recordOnce ..
      | use | instances | inhabit | note => exact List.prefix_rfl
    · exact ⟨known, found', List.prefix_rfl⟩

/-- A class is linked. -/
theorem of_new (new : state.class? name = none) (tasks : List Task) (errors : List Diagnostic) :
    state.Remembers (state.revise name record tasks errors) := by
  have kept : ∀ {other known}, state.class? other = some known →
      (state.revise name record tasks errors).class? other = some known := by
    intro other known found
    rw [class?_revise, if_neg fun same => ?_]
    · exact found
    · rw [same, found] at new
      cases new
  refine ⟨fun {id entry} at_ reached => ⟨entry, ?_, reached, List.prefix_rfl⟩,
    fun found => ⟨_, kept found, List.prefix_rfl⟩⟩
  obtain ⟨known, found, has⟩ := Option.bind_eq_some_iff.1 at_
  rw [method?, kept found]
  exact has

end Remembers

theorem Rooted.mono (remembers : state.Remembers next) (rooted : state.Rooted cause) :
    next.Rooted cause := by
  induction rooted with
  | component text => exact .component text
  | exports => exact .exports
  | method at_ reached head _ ih =>
    obtain ⟨later, at_', reached', longer⟩ := remembers.methods at_ reached
    exact .method at_' reached' (head?_of_longer longer head) ih

theorem Creates.mono (remembers : state.Remembers next) (creates : state.Creates cause) :
    next.Creates cause := by
  induction creates with
  | call rooted => exact .call (rooted.mono remembers)
  | cls found head _ ih =>
    obtain ⟨record, found', longer⟩ := remembers.classes found
    exact .cls found' (head?_of_longer longer head) ih

theorem BacksTask.mono (remembers : state.Remembers next) (backs : state.BacksTask task) :
    next.BacksTask task := by
  cases backs with
  | call rooted => exact .call (rooted.mono remembers)
  | instances asked creates => exact .instances asked (creates.mono remembers)
  | typeData asked owned => exact .typeData asked owned

theorem BacksMethod.mono (remembers : state.Remembers next) (backs : state.BacksMethod entry) :
    next.BacksMethod entry :=
  ⟨backs.nonempty, backs.nodup, fun cause mem => (backs.rooted cause mem).mono remembers⟩

theorem BacksClass.mono (remembers : state.Remembers next) (backs : state.BacksClass cls) :
    next.BacksClass cls :=
  ⟨fun cause mem => (backs.creators cause mem).mono remembers, backs.created,
    fun call mem => (backs.calls call mem).mono remembers⟩

theorem BacksError.mono {error : Diagnostic} (remembers : state.Remembers next)
    (backs : state.BacksError error) : next.BacksError error :=
  fun cause has => (backs cause has).imp_left (Rooted.mono remembers)

/-- Every task but those for type data and instances has a cause of calls. -/
theorem BacksTask.rooted (backs : state.BacksTask task)
    (call : task.action ≠ .fulfil (.use .instances) ∧ task.action ≠ .fulfil (.use .typeData)) :
    state.Rooted task.cause := by
  cases backs with
  | call rooted => exact rooted
  | instances asked => exact absurd asked call.1
  | typeData asked => exact absurd asked call.2

/-- What instances are created for has a cause of instances. -/
theorem BacksTask.creates (backs : state.BacksTask task)
    (creates : task.action = .fulfil (.use .instances) ∨ task.action = .fulfil (.use .module)) :
    state.Creates task.cause := by
  cases backs with
  | call rooted => exact .call rooted
  | instances _ creates => exact creates
  | typeData asked => rcases creates with asked' | asked' <;> cases asked.symm.trans asked'

/-- The cause of a task is one of calls, or a class. -/
theorem BacksTask.blames (backs : state.BacksTask task) :
    state.Rooted task.cause ∨ ∃ name, task.cause = .cls name := by
  cases backs with
  | call rooted => exact .inl rooted
  | instances _ creates =>
    generalize task.cause = cause at creates
    cases creates with
    | call rooted => exact .inl rooted
    | cls => exact .inr ⟨_, rfl⟩
  | typeData _ owned => exact .inr ⟨_, owned⟩

/-- Only what is new has to be backed. -/
theorem Backed.step (backed : state.Backed) (remembers : state.Remembers next)
    (tasks : ∀ task, next.Holds task → state.Holds task ∨ next.BacksTask task)
    (methods : ∀ method entry, next.method? method = some entry → entry.isReached = true →
      state.method? method = some entry ∨ next.BacksMethod entry)
    (classes : ∀ name cls, next.class? name = some cls →
      state.class? name = some cls ∨ next.BacksClass cls)
    (errors : ∀ error ∈ next.errors, error ∈ state.errors ∨ next.BacksError error) :
    next.Backed where
  tasks {task} holds :=
    (tasks task holds).elim (fun before => (backed.tasks before).mono remembers) id
  methods {method entry} at_ reached :=
    (methods method entry at_ reached).elim
      (fun before => (backed.methods before reached).mono remembers) id
  classes {name cls} found :=
    (classes name cls found).elim (fun before => (backed.classes before).mono remembers) id
  errors {error} mem :=
    (errors error mem).elim (fun before => (backed.errors before).mono remembers) id

/-! ### The simplest changes -/

/-- A task that is held after a class has been changed has been held before, or is new. -/
theorem Holds.of_revise (holds : (state.revise name record tasks errors).Holds task) :
    state.Holds task ∨ task ∈ tasks := by
  rcases holds with mem | ⟨other, status, h, parked⟩
  · exact (List.mem_append.1 mem).imp_left .inl
  · rw [status?_revise] at h
    split at h
    · cases h
      cases parked
    · exact .inl (.inr ⟨other, status, h, parked⟩)

theorem Holds.of_setStatus {status : Status} (holds : (state.setStatus name status).Holds task) :
    state.Holds task ∨ task ∈ status.parked := by
  rcases holds with mem | ⟨other, before, h, parked⟩
  · exact .inl (.inl mem)
  · rcases status_of_setStatus h with ⟨_, rfl⟩ | h
    · exact .inr parked
    · exact .inl (.inr ⟨other, before, h, parked⟩)

namespace Backed

theorem extend (backed : state.Backed) (tasks_ : ∀ task ∈ tasks, state.BacksTask task)
    (errors_ : ∀ error ∈ errors, state.BacksError error) : (state.extend tasks errors).Backed := by
  have remembers : state.Remembers (state.extend tasks errors) := .of_class?_eq rfl
  refine backed.step remembers (fun task holds => ?_) (fun _ _ at_ _ => .inl at_)
    (fun _ _ found => .inl found) fun error mem => ?_
  · rcases holds with mem | parked
    · exact (List.mem_append.1 mem).imp .inl fun new => (tasks_ task new).mono remembers
    · exact .inl (.inr parked)
  · exact (List.mem_append.1 mem).imp_right fun new => (errors_ error new).mono remembers

/-- Nothing changes but the lists of what is to be done and loaded. -/
theorem requeue (backed : state.Backed) (table : next.table = state.table)
    (work : next.work ⊆ state.work) (errors : next.errors = state.errors) : next.Backed := by
  have status : next.status? = state.status? := by
    funext name
    rw [status?, status?, table]
  have same : next.class? = state.class? := by
    funext name
    rw [class?, class?, status]
  refine backed.step (.of_class?_eq same) (fun task holds => .inl ?_)
    (fun id entry at_ _ => .inl ?_) (fun _ _ found => .inl (same ▸ found))
    fun error mem => .inl (errors ▸ mem)
  · rcases holds with mem | parked
    · exact .inl (work mem)
    · exact .inr (status ▸ parked)
  · rw [← method?_of_class?_eq same]
    exact at_

/-- More is learned of a class. -/
theorem learn (backed : state.Backed) (found : state.class? name = some cls)
    (learns : cls.Learns record)
    (tasks_ : ∀ task ∈ tasks, (state.revise name record tasks []).BacksTask task)
    (backs : (state.revise name record tasks []).BacksClass cls →
      (state.revise name record tasks []).BacksClass record) :
    (state.revise name record tasks []).Backed := by
  have remembers := Remembers.of_learns found learns tasks []
  refine backed.step remembers (fun task holds => ?_) (fun id entry at_ reached => .inl ?_)
    (fun other known found' => ?_) fun error mem => .inl ?_
  · exact holds.of_revise.imp_right (tasks_ task)
  · rw [← learns.method?_eq found tasks []]
    exact at_
  · rw [class?_revise] at found'
    split at found'
    · cases found'
      exact .inr (backs ((backed.classes found).mono remembers))
    · exact .inl found'
  · exact (List.append_nil state.errors) ▸ mem

/-- A cause of instances is entered as a creator. -/
theorem creator (backed : state.Backed) (found : state.class? name = some cls)
    (creates : state.Creates cause) :
    (state.revise name { cls with creators := recordOnce cls.creators cause } [] []).Backed := by
  have creates := creates.mono (Remembers.of_learns found (.creator cause) [] [])
  refine backed.learn found (.creator cause) (fun _ mem => by cases mem) fun backs => { backs with
    creators := fun other mem => ?_
    created := fun _ => List.ne_nil_of_mem (mem_recordOnce.2 (.inr rfl)) }
  rcases mem_recordOnce.1 mem with mem | rfl
  · exact backs.creators other mem
  · exact creates

/-- A call is noted for a cause that leads back. -/
theorem note (backed : state.Backed) (found : state.class? name = some cls)
    (rooted : state.Rooted cause) (method : MethodName) :
    (state.revise name { cls with calls := cls.calls ++ [(method, cause)] } [] []).Backed := by
  have rooted := rooted.mono (Remembers.of_learns found (.note (method, cause)) [] [])
  refine backed.learn found (.note (method, cause)) (fun _ mem => by cases mem) fun backs =>
    { backs with calls := fun call mem => ?_ }
  rcases List.mem_append.1 mem with mem | mem
  · exact backs.calls call mem
  · rw [List.mem_singleton.1 mem]
    exact rooted

/-- The status of a class that is not linked changes. -/
theorem setStatus {status : Status} (backed : state.Backed) (unlinked : state.class? name = none)
    (bare : status.record? = none)
    (parked : ∀ task ∈ status.parked, state.Holds task ∨ state.BacksTask task) :
    (state.setStatus name status).Backed := by
  have same : (state.setStatus name status).class? = state.class? := class?_setStatus unlinked bare
  have remembers : state.Remembers (state.setStatus name status) := .of_class?_eq same
  refine backed.step remembers (fun task holds => ?_) (fun id entry at_ _ => .inl ?_)
    (fun _ _ found => .inl (same ▸ found)) fun _ mem => .inl mem
  · rcases holds.of_setStatus with before | new
    · exact .inl before
    · exact (parked task new).imp_right (BacksTask.mono remembers)
  · rw [← method?_of_class?_eq same]
    exact at_

/-- One more task waits for a class that is not linked. -/
theorem park {status later : Status} (backed : state.Backed)
    (before : state.status? name = some status) (unlinked : status.record? = none)
    (after : later.record? = none) (parked : later.parked = status.parked ++ [task])
    (backs : state.BacksTask task) : (state.setStatus name later).Backed := by
  refine backed.setStatus (class?_eq_none_of_status before unlinked) after fun due mem => ?_
  rw [parked] at mem
  rcases List.mem_append.1 mem with mem | mem
  · exact .inl (.inr ⟨_, _, before, mem⟩)
  · exact .inr (List.mem_singleton.1 mem ▸ backs)

/-- A class is linked, and takes up its tasks. -/
theorem link {parked : List Task} (backed : state.Backed) (unlinked : state.class? name = none)
    (fresh_eq : record.fresh = record) (parked_ : ∀ task ∈ parked, state.Holds task)
    (errors_ : ∀ error ∈ errors, ∃ name, error.cause? = some (.cls name)) :
    (state.revise name record parked errors).Backed := by
  have remembers := @Remembers.of_new _ _ record unlinked parked errors
  have silent := ClassRecord.silent_of_fresh fresh_eq
  refine backed.step remembers (fun task holds => .inl ?_) (fun id entry at_ reached => ?_)
    (fun other known found => ?_) fun error mem => ?_
  · exact holds.of_revise.elim id (parked_ task)
  · rw [method?, class?_revise] at at_
    split at at_
    · rw [silent.2.2.2 at_] at reached
      cases reached
    · exact .inl at_
  · rw [class?_revise] at found
    split at found
    · cases found
      rw [← fresh_eq]
      exact .inr ⟨fun _ mem => (by cases mem), fun h => (by cases h), fun _ mem => by cases mem⟩
    · exact .inl found
  · refine (List.mem_append.1 mem).imp_right fun new cause has => ?_
    obtain ⟨name, named⟩ := errors_ error new
    exact .inr ⟨name, Option.some.inj (has.symm.trans named)⟩

end Backed

end State

/-! ### Calls -/

/-- A call lands at a method that is there, or at a new one that nothing has called. -/
theorem Landing.has_or_new
    (landing : Landing state name cause key owner cls entry errors) :
    cls.method? key = some entry ∨
      entry.id = ⟨owner, key.space, key.name⟩ ∧ entry.isReached = false ∧ entry.callers = [] := by
  cases landing with
  | resolved resolved =>
    cases resolved with
    | inherited _ has | default _ _ _ _ has => exact .inl has
    | missing =>
      generalize cls.method? _ = known
      cases known with
      | some known => exact .inl rfl
      | none => exact .inr ⟨rfl, rfl, rfl⟩
    | bridge => exact .inr ⟨rfl, rfl, rfl⟩
  | own has => exact .inl has
  | absent | proxy => exact .inr ⟨rfl, rfl, rfl⟩

/-- The errors of a call are due to its cause. -/
theorem Landing.cause_of_mem (landing : Landing state name cause key owner cls entry errors)
    {error : Diagnostic} (mem : error ∈ errors) : error.cause? = some cause := by
  have conflict : ∀ {method owners}, error ∈ conflictErrors method owners cause →
      error.cause? = some cause := by
    intro method owners mem
    unfold conflictErrors at mem
    split at mem
    · cases mem
    · rw [List.mem_singleton.1 mem]
      rfl
  cases landing with
  | resolved resolved =>
    cases resolved with
    | inherited => cases mem
    | default _ _ _ _ _ _ conflicts => exact conflict (conflicts mem)
    | missing =>
      rw [List.mem_singleton.1 mem]
      rfl
    | bridge => exact conflict mem
  | own | proxy => cases mem
  | absent =>
    rw [List.mem_singleton.1 mem]
    rfl

namespace State

/-- What follows from a method being reachable is due to the method. -/
theorem cause_of_mem_methodTasks (mem : task ∈ methodTasks cls entry) :
    task.cause = .method entry.id := by
  unfold methodTasks at mem
  simp only at mem
  split at mem
  · rw [List.mem_singleton.1 mem]
  · rw [List.mem_singleton.1 mem]
  · split at mem
    · split at mem
      · obtain ⟨_, _, same⟩ := Demands.mem_tasks.1 mem
        rw [same]
      · cases mem
    · cases mem

/-- A method that a call lands on has not been called yet, or it is backed already. -/
theorem Backed.uncalled_or_backed {owner : ClassName} {errors : List Diagnostic}
    (backed : state.Backed) (valid : state.Valid setting) (uncalled : state.Uncalled)
    (found : state.class? owner = some cls)
    (landing : Landing state name cause key owner cls entry errors) :
    entry.id = ⟨owner, key.space, key.name⟩ ∧
      (entry.isReached = false ∧ entry.callers = [] ∨
        entry.isReached = true ∧ state.BacksMethod entry) := by
  rcases landing.has_or_new with has | ⟨id_eq, unreached, none⟩
  · have named : cls.name = owner := valid.follows.name_eq found
    refine ⟨named ▸ ((valid.classes found).entries has).id_eq, ?_⟩
    cases reached : entry.isReached with
    | false => exact .inl ⟨rfl, uncalled found has reached⟩
    | true =>
      have at_ : state.method? ⟨owner, key.space, key.name⟩ = some entry := by
        rw [method?, found]
        exact has
      exact .inr ⟨rfl, backed.methods at_ reached⟩
  · exact ⟨id_eq, .inl ⟨unreached, none⟩⟩

/-- One more caller that leads back. -/
theorem BacksMethod.calledBy (before : entry.callers = [] ∨ state.BacksMethod entry)
    (remembers : state.Remembers next) (rooted : next.Rooted cause) :
    next.BacksMethod (entry.calledBy cause) where
  nonempty := List.ne_nil_of_mem (mem_recordOnce.2 (.inr rfl))
  nodup := by
    rcases before with none | known
    · exact nodup_recordOnce (none ▸ List.nodup_nil) cause
    · exact nodup_recordOnce known.nodup cause
  rooted caller mem := by
    rcases mem_recordOnce.1 mem with mem | rfl
    · rcases before with none | known
      · rw [none] at mem
        cases mem
      · exact (known.rooted caller mem).mono remembers
    · exact rooted

/-- A call for a cause that leads back is backed, and so is all that it gives rise to. -/
theorem Backed.lands (backed : state.Backed) (valid : state.Valid setting)
    (uncalled : state.Uncalled) (remembers : state.Remembers next) (rooted : state.Rooted cause)
    (lands : state.Lands name key cause next) : next.Backed := by
  cases lands with
  | @intro owner cls entry errors found landing =>
  obtain ⟨id_eq, before⟩ := backed.uncalled_or_backed valid uncalled found landing
  have at_ : (state.called owner cls key entry cause errors).method? entry.id =
      some (entry.calledBy cause) := by
    rw [method?_called found, if_pos ⟨by rw [id_eq], by rw [id_eq]; rfl⟩]
  have rooted' := rooted.mono remembers
  have backs : (state.called owner cls key entry cause errors).BacksMethod
      (entry.calledBy cause) :=
    .calledBy (before.imp And.right And.right) remembers rooted'
  refine backed.step remembers (fun task holds => ?_) (fun id later at_' reached => ?_)
    (fun other record found' => ?_) fun error mem => ?_
  · refine holds.of_revise.imp_right fun mem => .call ?_
    unfold ClassRecord.callTasks at mem
    split at mem
    · cases mem
    · rename_i unreached
      -- The task follows from the first call of the method, whose first caller is the cause.
      rw [cause_of_mem_methodTasks mem]
      refine .method at_ rfl ?_ rooted'
      rcases before with ⟨_, none⟩ | ⟨reached, _⟩
      · simp [MethodRecord.calledBy, none, recordOnce]
      · exact absurd reached unreached
  · rw [method?_called found] at at_'
    split at at_'
    · cases at_'
      exact .inr backs
    · exact .inl at_'
  · rw [called, class?_revise] at found'
    split at found'
    · cases found'
      exact .inr { (backed.classes found).mono remembers with }
    · exact .inl found'
  · refine (List.mem_append.1 mem).imp_right fun new blamed has => ?_
    rw [landing.cause_of_mem new] at has
    exact .inl (Option.some.inj has ▸ rooted')

/-! ### Instances -/

theorem cause_of_mem_exportedMemberTasks (mem : task ∈ exportedMemberTasks cls) :
    task.cause = .exports := by
  unfold exportedMemberTasks at mem
  split at mem
  · cases mem
  · obtain ⟨_, _, mem⟩ := List.mem_flatMap.1 mem
    obtain ⟨_, _, same⟩ := Demands.mem_tasks.1 mem
    rw [same]

theorem backsTask_exportedMember (state : State) (mem : task ∈ exportedMemberTasks cls) :
    state.BacksTask task :=
  .call (cause_of_mem_exportedMemberTasks mem ▸ .exports)

/-- What instances ask for is exported, or it is the type data of the fields. -/
theorem backsTask_instance (state : State) (mem : task ∈ instanceTasks cls) :
    state.BacksTask task := by
  unfold instanceTasks at mem
  split at mem
  · cases mem
  · rcases List.mem_append.1 mem with mem | mem
    · split at mem
      · cases mem
      · exact backsTask_exportedMember state mem
    · obtain ⟨field, _, rfl⟩ := List.mem_map.1 mem
      exact .typeData rfl rfl

theorem Backed.markInstances (backed : state.Backed) (name : ClassName) :
    (state.markInstances name).Backed := by
  rcases state.markInstances_cases name with same | ⟨cls, found, _, same⟩
  · rw [same]
    exact backed
  · rw [same]
    exact backed.learn found .instances (fun task mem => backsTask_instance _ mem)
      fun backs => { backs with }

theorem Backed.addInhabited (backed : state.Backed) (name ancestor : ClassName) :
    (state.addInhabited name ancestor).Backed := by
  rcases state.addInhabited_cases name ancestor with same | ⟨cls, found, same⟩
  · rw [same]
    exact backed
  · rw [same]
    exact backed.learn found (.inhabit name) (fun _ mem => by cases mem)
      fun backs => { backs with }

/-- A class with instances is a cause of instances itself. -/
theorem Backed.creates (backed : state.Backed) (found : state.class? name = some cls)
    (created : cls.uses.instances = true) : state.Creates (.cls name) := by
  have backs := backed.classes found
  obtain ⟨first, rest, creators⟩ := List.exists_cons_of_ne_nil (backs.created created)
  refine .cls found ?_ (backs.creators first ?_)
  · rw [creators, List.head?_cons]
  · rw [creators]
    exact List.mem_cons_self

theorem Backed.createJS (backed : state.Backed) (found : state.class? cls.name = some cls)
    (created : cls.uses.instances = true) : (state.createJS cls).Backed := by
  simp only [State.createJS, addTasks_eq]
  have parents : ∀ task ∈ cls.superTasks, state.BacksTask task := by
    intro task mem
    obtain ⟨parent, _, rfl⟩ := List.mem_map.1 mem
    exact .instances rfl (backed.creates found created)
  have asked : (state.extend cls.superTasks []).Backed :=
    backed.extend parents fun _ mem => by cases mem
  exact (asked.markInstances cls.name).extend
    (fun task mem => backsTask_exportedMember _ mem) fun _ mem => by cases mem

/-- What is entered of a class is asked for by a component, or exported. -/
theorem backsTask_entry (state : State) (mem : task ∈ entryTasks cls) : state.BacksTask task := by
  unfold entryTasks at mem
  split at mem
  · cases mem
  · rcases List.mem_append.1 mem with mem | mem
    · split at mem
      · rw [List.mem_singleton.1 mem]
        exact .call (.component _)
      · cases mem
    · obtain ⟨item, _, mem⟩ := List.mem_flatMap.1 mem
      obtain ⟨demand, _, same⟩ := Demands.mem_tasks.1 mem
      exact .call (same ▸ .exports)

end State

/-! ### Runs -/

/-- Whatever an effect of a task brings is backed if the task is. -/
theorem Effect.backed (fair : setting.IsFair) (valid : state.Valid setting)
    (justified : setting.Justifies task) (uncalled : state.Uncalled) (backed : state.Backed)
    (backs : state.BacksTask task) (retains : state.Retains next)
    (effect : Effect task state next) : next.Backed := by
  have remembers : state.Remembers next := .of_retains retains
  have unasked : ∀ {demand : Demand}, task.action = .fulfil demand →
      demand ≠ .use .instances → demand ≠ .use .typeData → state.Rooted task.cause := by
    intro demand asked notInstances notData
    refine backs.rooted ⟨fun h => ?_, fun h => ?_⟩
    · exact notInstances (Action.fulfil.inj (asked.symm.trans h))
    · exact notData (Action.fulfil.inj (asked.symm.trans h))
  have noTasks : ∀ {state : State}, ∀ task ∈ ([] : List Task), state.BacksTask task :=
    fun _ mem => by cases mem
  have noErrors : ∀ error ∈ ([] : List Diagnostic), state.BacksError error :=
    fun _ mem => by cases mem
  cases effect with
  | @use cls use found _ _ notInstances =>
    refine backed.learn found (.use use) noTasks fun backs => { backs with
      created := fun created => backs.created ?_ }
    have created : (cls.uses.insert use).contains .instances = true := created
    rw [Uses.contains_insert, decide_eq_false (Ne.symm notInstances), Bool.false_or] at created
    exact created
  | creator found asked => exact backed.creator found (backs.creates asked)
  | create found _ _ _ credited =>
    exact backed.learn found (.use .instances) noTasks fun backs => { backs with
      created := fun _ => credited }
  | mark => exact (backed.markInstances _).addInhabited _ _
  | @markJS cls found created =>
    have named : cls.name = task.cls := valid.follows.name_eq found
    exact backed.createJS (named ▸ found) created
  | markNative => exact backed.markInstances _
  | construct _ asked =>
    refine backed.extend (fun task mem => ?_) noErrors
    rw [List.mem_singleton.1 mem]
    exact .call (unasked asked (by simp) (by simp))
  | note found _ _ asked => exact backed.note found (unasked asked (by simp) (by simp)) _
  | dispatch found resident noted =>
    exact backed.lands valid uncalled remembers ((backed.classes found).calls _ noted)
      (State.lands_noted fair valid found resident _ _)
  | again found resident noted dispatched =>
    exact backed.lands valid uncalled remembers ((backed.classes found).calls _ noted)
      (State.lands_notedAgain fair valid found resident dispatched _)
  | exact found asked =>
    have rooted : state.Rooted task.cause := backs.rooted ⟨by simp [asked], by simp [asked]⟩
    exact backed.lands valid uncalled remembers rooted
      (State.lands_exact fair valid found justified asked _)
  | direct found _ asked =>
    exact backed.lands valid uncalled remembers (unasked asked (by simp) (by simp))
      (State.lands_callDirect fair valid found _ _)
  | enter => exact backed.extend (fun task mem => State.backsTask_entry state mem) noErrors
  | report wrong =>
    refine backed.extend noTasks fun error mem cause has => ?_
    obtain rfl := List.mem_singleton.1 mem
    rcases wrong with rfl | ⟨rfl, _⟩ <;> exact Option.some.inj has ▸ backs.blames
  | await new =>
    have parked : (state.setStatus task.cls (.awaited [task])).Backed :=
      backed.setStatus (State.class?_eq_none_of_new new) rfl fun due mem =>
        .inr (List.mem_singleton.1 mem ▸ backs)
    exact parked.requeue rfl (List.Subset.refl _) rfl
  | park status | parkLoaded status => exact backed.park status rfl rfl rfl backs

/-- Linking calls nothing. What it reports is due to the classes that are linked. -/
theorem Linking.backed (backed : state.Backed) (linking : Linking setting state next) :
    next.Backed := by
  cases linking with
  | settle step =>
    cases step with
    | absent status =>
      exact backed.link (State.class?_eq_none_of_status status rfl) rfl
        (fun task mem => .inr ⟨_, _, status, mem⟩) fun _ mem => by cases mem
    | link parents status =>
      exact backed.link (State.class?_eq_none_of_status status rfl) rfl
        (fun task mem => .inr ⟨_, _, status, mem⟩)
        fun error mem => ⟨_, ClassSummary.cause?_of_mem_linkErrors mem⟩
    | fail status =>
      exact backed.setStatus (State.class?_eq_none_of_status status rfl) rfl
        fun _ mem => by cases mem
    | @cycle first rest _ loaded =>
      have same := State.class?_failCycle first loaded
      refine backed.step (.of_class?_eq same) (fun task holds => .inl ?_)
        (fun id entry at_ _ => .inl ?_) (fun _ _ found => .inl (same ▸ found)) fun error mem => ?_
      · rcases holds with mem | ⟨name, status, h, parked⟩
        · rw [State.failCycle_eq] at mem
          exact .inl mem
        · rw [State.status?_failCycle] at h
          split at h
          · cases h
            cases parked
          · exact .inr ⟨name, status, h, parked⟩
      · rw [← State.method?_of_class?_eq same]
        exact at_
      · rw [State.errors_failCycle] at mem
        refine (List.mem_append.1 mem).imp_right fun new cause has => ?_
        rw [List.mem_singleton.1 new] at has
        exact .inr ⟨first, (Option.some.inj has).symm⟩
  | @request _ parent _ new =>
    have awaited : (state.setStatus parent (.awaited [])).Backed :=
      backed.setStatus (State.class?_eq_none_of_new new) rfl fun _ mem => by cases mem
    exact awaited.requeue rfl (List.Subset.refl _) rfl
  | queue => exact backed.requeue rfl (List.Subset.refl _) rfl

/-- A class that is taken in keeps the tasks that are parked with it. -/
theorem State.Backed.receive (backed : state.Backed)
    (unseen : ∀ status, state.status? name = some status → ∃ parked, status = .awaited parked)
    (summary : Option ClassSummary) : (state.receive name summary).Backed := by
  obtain ⟨parked, same, before⟩ := State.receive_of_unseen unseen summary
  have taken : (state.setStatus name (.loaded summary parked)).Backed :=
    backed.setStatus (State.class?_eq_none_of_unseen unseen) rfl fun task mem =>
      .inl (.inr ⟨name, before task mem⟩)
  rw [same]
  exact taken.requeue rfl (List.Subset.refl _) rfl

/-- What a run begins with is required by components, or entered to be exported. -/
theorem Setting.backsTask_root (state : State) (mem : task ∈ setting.rootTasks) :
    state.BacksTask task := by
  rcases List.mem_append.1 mem with required | entered
  · obtain ⟨_, asker, _, cause⟩ := Requirement.exists_of_mem_tasks required
    exact .call (cause ▸ .component asker)
  · obtain ⟨name, _, rfl⟩ := List.mem_map.1 entered
    exact .call .exports

theorem State.backed_empty (allow : Bool) : State.Backed { allowForwarders := allow } where
  tasks holds := by
    rcases holds with mem | ⟨name, status, h, _⟩
    · cases mem
    · rw [State.status?_blank] at h
      cases h
  methods at_ := by
    rw [State.method?, State.class?_blank] at at_
    cases at_
  classes found := by
    rw [State.class?_blank] at found
    cases found
  errors mem := by cases mem

section

variable (fair : setting.IsFair) (full : ∀ fact, setting.facts fact)
  (reserved : setting.allow = true → setting.world.ReservesProxies) (uncalled : state.Uncalled)
  (explains : ∀ method, (method.isProxy && setting.allow) = false → state.Explains method)

include fair full reserved uncalled explains

theorem Effects.backed (valid : state.Valid setting) (justified : setting.Justifies task)
    (backed : state.Backed) (backs : state.BacksTask task) (effects : Effects task state next) :
    next.Backed := by
  induction effects with
  | refl => exact backed
  | @tail middle final early effect ih =>
    have changes := Effects.changes fair full valid justified early
    have valid' := Changes.valid fair changes valid
    have uncalled' : middle.Uncalled := Moves.uncalled (Changes.moves changes) uncalled
    have before := Effects.retains fair full valid reserved uncalled explains justified early
    have retains := Effects.retains fair full valid' reserved uncalled'
      (fun method direct => Effects.explains fair full valid justified direct early
        (explains method direct)) justified (.single effect)
    exact effect.backed fair valid' justified uncalled' ih (backs.mono (.of_retains before)) retains

/-- One turn of a run brings nothing that is not backed. -/
theorem Turn.backed (backed : state.Backed) (turn : Turn setting state next) : next.Backed := by
  cases turn with
  | @perform task rest order work =>
    obtain ⟨valid', consistent, justified⟩ := order.takes work
    have fewer : rest ⊆ state.work := work ▸ List.subset_cons_self ..
    let taken : State := { state with work := rest }
    have backed' : taken.Backed := backed.requeue rfl fewer rfl
    have uncalled' : taken.Uncalled := uncalled
    have remembers : state.Remembers taken := .of_class?_eq rfl
    have first : task ∈ state.work := work ▸ List.mem_cons_self
    have backs : taken.BacksTask task := (backed.tasks (.inl first)).mono remembers
    exact Effects.backed fair full reserved uncalled'
      (fun method direct => (explains method direct).withWork rest) valid' justified backed' backs
      (State.effects_perform fair full valid' consistent justified)
  | link linking => exact linking.backed backed
  | handOver => exact backed.requeue rfl (List.Subset.refl _) rfl
  | receive awaited =>
    exact backed.receive (fun status h => ⟨_, Option.some.inj (h.symm.trans awaited)⟩) _
  | root blank =>
    refine backed.receive (fun status h => ?_) _
    rw [blank, State.status?_blank] at h
    cases h
  | ask =>
    rw [State.addTasks_eq]
    exact backed.extend (fun task mem => Setting.backsTask_root state mem) fun _ mem => by cases mem

omit uncalled explains in
/-- Everything that a run has come across in the end is backed. -/
theorem Turns.backed (turns : Turns setting { allowForwarders := setting.allow } state) :
    state.Backed := by
  induction turns with
  | refl => exact State.backed_empty _
  | @tail middle final early turn ih =>
    have blank : State.Valid setting { allowForwarders := setting.allow } :=
      State.valid_empty setting
    have uncalled : middle.Uncalled := Moves.uncalled (Turns.moves fair early) fun found => by
      rw [State.class?_blank] at found
      cases found
    exact turn.backed fair full reserved uncalled
      (fun method direct => Turns.explains fair full blank direct early
        (State.explains_empty setting method)) ih

end

end ClassLinker
