import ClassLinker.Proofs.Validity

/-!
# What an analysis never takes back

A step only adds to what is known, and puts what is listed in order at the end: `State.Grows`. Tasks
that wait stay waiting until they are done (`State.Awaits`), and what follows from instances and
reachable methods is put on the list in the step that they come from (`Change.owes`). Of a linked
class, a step can only make an update, and before it is linked nothing is known of it
(`Change.class_cases`).
-/

namespace ClassLinker

variable {setting : Setting} {state next : State}
variable {name other owner : ClassName} {cls record : ClassRecord}
variable {key : MethodKey} {entry : MethodRecord} {method : MethodName} {task : Task}

/-! ### Growth -/

/-- The class is linked as before, and everything else has become more. -/
structure ClassRecord.Grows (before after : ClassRecord) : Prop where
  fresh_eq : after.fresh = before.fresh
  uses : ∀ {use}, before.uses.contains use = true → after.uses.contains use = true
  hasInstances : before.hasInstances = true → after.hasInstances = true
  creators : before.creators <+: after.creators
  inhabited : before.inhabited <+: after.inhabited
  calls : before.calls <+: after.calls
  methods : ∀ {key entry}, before.method? key = some entry →
    ∃ later, after.method? key = some later ∧
      (entry.isReached = true → later.isReached = true) ∧
      (entry.isConcrete = true → later.isConcrete = true)

namespace ClassRecord.Grows

theorem refl (cls : ClassRecord) : cls.Grows cls :=
  ⟨rfl, id, id, List.prefix_rfl, List.prefix_rfl, List.prefix_rfl, fun h => ⟨_, h, id, id⟩⟩

theorem trans {first second third : ClassRecord} (early : first.Grows second)
    (late : second.Grows third) : first.Grows third where
  fresh_eq := late.fresh_eq.trans early.fresh_eq
  uses h := late.uses (early.uses h)
  hasInstances h := late.hasInstances (early.hasInstances h)
  creators := early.creators.trans late.creators
  inhabited := early.inhabited.trans late.inhabited
  calls := early.calls.trans late.calls
  methods h := by
    obtain ⟨middle, h, reached, concrete⟩ := early.methods h
    obtain ⟨later, h, reached', concrete'⟩ := late.methods h
    exact ⟨later, h, reached' ∘ reached, concrete' ∘ concrete⟩

theorem name_eq (grows : cls.Grows record) : record.name = cls.name := by
  show record.fresh.name = cls.name
  rw [grows.fresh_eq]; rfl

theorem kind_eq (grows : cls.Grows record) : record.kind = cls.kind := by
  show record.fresh.kind = cls.kind
  rw [grows.fresh_eq]; rfl

theorem isPresent_eq (grows : cls.Grows record) : record.isPresent = cls.isPresent := by
  show record.fresh.isPresent = cls.isPresent
  rw [grows.fresh_eq]; rfl

theorem superClass_eq (grows : cls.Grows record) : record.superClass = cls.superClass := by
  show record.fresh.superClass = cls.superClass
  rw [grows.fresh_eq]; rfl

theorem ancestors_eq (grows : cls.Grows record) : record.ancestors = cls.ancestors := by
  show record.fresh.ancestors = cls.ancestors
  rw [grows.fresh_eq]; rfl

theorem created (grows : cls.Grows record) (uses : cls.uses.instances = true) :
    record.uses.instances = true := by
  have h : cls.uses.contains .instances = true := uses
  exact grows.uses h

theorem read (grows : cls.Grows record) (uses : cls.uses.module = true) :
    record.uses.module = true := by
  have h : cls.uses.contains .module = true := uses
  exact grows.uses h

theorem hasConcrete (grows : cls.Grows record) (has : cls.hasConcrete method = true) :
    record.hasConcrete method = true := by
  obtain ⟨entry, found, concrete⟩ := (Option.any_eq_true ..).1 has
  obtain ⟨later, found', _, keeps⟩ := grows.methods found
  exact (Option.any_eq_true ..).2 ⟨later, found', keeps concrete⟩

end ClassRecord.Grows

/-- Linked classes grow, failed ones have failed for good, and errors stay. -/
structure State.Grows (before after : State) : Prop where
  allow : after.allowForwarders = before.allowForwarders
  classes : ∀ {name cls}, before.class? name = some cls →
    ∃ record, after.class? name = some record ∧ cls.Grows record
  failed : ∀ {name}, before.status? name = some .failed → after.status? name = some .failed
  errors : before.errors <+: after.errors

namespace State.Grows

theorem refl (state : State) : state.Grows state :=
  ⟨rfl, fun h => ⟨_, h, .refl _⟩, id, List.prefix_rfl⟩

theorem trans {first second third : State} (early : first.Grows second)
    (late : second.Grows third) : first.Grows third where
  allow := late.allow.trans early.allow
  classes h := by
    obtain ⟨middle, h, grows⟩ := early.classes h
    obtain ⟨record, h, grows'⟩ := late.classes h
    exact ⟨record, h, grows.trans grows'⟩
  failed h := late.failed (early.failed h)
  errors := early.errors.trans late.errors

/-- A class that is not linked has not been linked before. -/
theorem unlinked {before after : State} (grows : before.Grows after)
    (unlinked : after.class? name = none) : before.class? name = none := by
  cases found : before.class? name with
  | none => rfl
  | some cls =>
    obtain ⟨record, found', _⟩ := grows.classes found
    rw [unlinked] at found'
    cases found'

/-- Errors do not go away. -/
theorem reported {before after : State} (grows : before.Grows after)
    (reported : before.errors ≠ []) : after.errors ≠ [] := by
  obtain ⟨error, mem⟩ := List.exists_mem_of_ne_nil _ reported
  exact List.ne_nil_of_mem (grows.errors.subset mem)

end State.Grows

/-- An update makes the class grow. -/
theorem Update.grows {tasks : List Task} {errors : List Diagnostic}
    (update : Update setting state cls record tasks errors) : cls.Grows record := by
  have before := ClassRecord.Grows.refl cls
  cases update with
  | @use use =>
    refine { before with uses := fun {other} h => ?_ }
    rw [ClassRecord.addUse, Uses.contains_insert, h, Bool.or_true]
  | creator => exact { before with creators := prefix_recordOnce .. }
  | instances => exact { before with hasInstances := fun _ => rfl }
  | inhabit => exact { before with inhabited := List.prefix_append .. }
  | note => exact { before with calls := List.prefix_append .. }
  | @call cause key entry errors enters =>
    refine { before with methods := fun {other method} h => ?_ }
    rw [ClassRecord.method?_withCall]
    split
    · rename_i same
      subst same
      -- The entry that is called may be new, but then it stands in place of no code.
      refine ⟨_, rfl, fun _ => rfl, fun concrete => ?_⟩
      cases enters with
      | found has =>
        obtain rfl := Option.some.inj (has.symm.trans h)
        exact concrete
      | missing lacks => rw [lacks] at h; cases h
      | bridge | proxy => rfl
    · exact ⟨method, h, id, id⟩

/-- Changing a linked class so that it grows makes the state grow. -/
theorem State.grows_revise {tasks : List Task} {errors : List Diagnostic}
    (before : ∀ linked, state.class? name = some linked → linked.Grows record)
    (notFailed : state.status? name ≠ some .failed) :
    state.Grows (state.revise name record tasks errors) where
  allow := rfl
  classes {other linked} h := by
    rw [State.class?_revise]
    split
    · rename_i same
      subst same
      exact ⟨record, rfl, before linked h⟩
    · exact ⟨linked, h, .refl _⟩
  failed {other} h := by
    rw [State.status?_revise, if_neg (by rintro rfl; exact notFailed h)]
    exact h
  errors := List.prefix_append ..

/-- A class that is not linked may go on to another status. -/
theorem State.grows_setStatus {status : Status} (unlinked : state.class? name = none)
    (after : status.record? = none) (kept : state.status? name = some .failed → status = .failed) :
    state.Grows (state.setStatus name status) where
  allow := rfl
  classes h := ⟨_, by rw [State.class?_setStatus unlinked after]; exact h, .refl _⟩
  failed {other} h := by
    rw [State.status?_setStatus]
    split
    · rename_i same
      subst same
      rw [kept h]
    · exact h
  errors := List.prefix_rfl

/-- Every step makes the state grow. -/
theorem Change.grows (change : Change setting state next) : state.Grows next := by
  cases change with
  | @update name cls record tasks errors found update =>
    refine State.grows_revise (fun linked h => ?_) fun h => ?_
    · obtain rfl := Option.some.inj (found.symm.trans h)
      exact update.grows
    · rw [State.class?_eq_none_of_status h rfl] at found; cases found
  | extend => exact { State.Grows.refl state with errors := List.prefix_append .. }
  | @await name parked new =>
    have unlinked : state.class? name = none := State.class?_eq_none_of_new new
    have grows : state.Grows (state.setStatus name (.awaited parked)) :=
      State.grows_setStatus unlinked rfl fun h => by rw [new] at h; cases h
    exact { grows with }
  | park status | parkLoaded status =>
    exact State.grows_setStatus (State.class?_eq_none_of_status status rfl) rfl fun h => by
      rw [status] at h; cases h
  | @receive name unseen =>
    obtain ⟨parked, same, _⟩ := state.receive_eq name (setting.world name)
    have grows : state.Grows (state.setStatus name (.loaded (setting.world name) parked)) := by
      refine State.grows_setStatus (State.class?_eq_none_of_unseen unseen) rfl fun failed => ?_
      obtain ⟨_, h⟩ := unseen .failed failed
      cases h
    rw [same]
    exact { grows with }
  | queue => exact { State.Grows.refl state with }
  | absent status | link _ status =>
    refine State.grows_revise (fun linked h => ?_) fun h => ?_
    · rw [State.class?_eq_none_of_status status rfl] at h; cases h
    · rw [status] at h; cases h
  | fail status =>
    exact State.grows_setStatus (State.class?_eq_none_of_status status rfl) rfl fun _ => rfl

theorem Changes.grows (changes : Changes setting state next) : state.Grows next := by
  induction changes with
  | refl => exact .refl _
  | tail _ change ih => exact ih.trans change.grows

/-! ### Tasks -/

namespace State

/-- The task is on the list, or waits for its class, or is for a class that has failed. -/
def Awaits (state : State) (task : Task) : Prop :=
  task ∈ state.work ∨ ∃ status, state.status? task.cls = some status ∧
    (task ∈ status.parked ∨ status = .failed)

/-- What follows from there being instances of a class, and from a method being reachable. -/
inductive Owes (state : State) (task : Task) : Prop
  | instances {name : ClassName} {cls : ClassRecord} (found : state.class? name = some cls)
      (has : cls.hasInstances = true) (due : task ∈ cls.instanceDues)
  | body {name : ClassName} {cls : ClassRecord} {key : MethodKey} {entry : MethodRecord}
      (found : state.class? name = some cls) (has : cls.method? key = some entry)
      (reached : entry.isReached = true) (due : task ∈ methodTasks cls entry)

theorem Awaits.revise {tasks : List Task} {errors : List Diagnostic} (awaits : state.Awaits task)
    (kept : ∀ status, state.status? name = some status →
      status ≠ .failed ∧ ∀ task ∈ status.parked, task ∈ tasks) :
    (state.revise name record tasks errors).Awaits task := by
  rcases awaits with mem | ⟨status, h, waits⟩
  · exact .inl (List.mem_append_left _ mem)
  · by_cases same : name = task.cls
    · subst same
      obtain ⟨notFailed, parked⟩ := kept status h
      rcases waits with mem | failed
      · exact .inl (List.mem_append_right _ (parked task mem))
      · exact absurd failed notFailed
    · refine .inr ⟨status, ?_, waits⟩
      rw [status?_revise, if_neg same]
      exact h

theorem Awaits.setStatus {status : Status} (awaits : state.Awaits task)
    (kept : ∀ before, state.status? name = some before →
      status = .failed ∨ before ≠ .failed ∧ ∀ task ∈ before.parked, task ∈ status.parked) :
    (state.setStatus name status).Awaits task := by
  rcases awaits with mem | ⟨before, h, waits⟩
  · exact .inl mem
  · by_cases same : name = task.cls
    · subst same
      refine .inr ⟨status, by rw [status?_setStatus, if_pos rfl], ?_⟩
      rcases kept before h with failed | ⟨notFailed, parked⟩
      · exact .inr failed
      · exact .inl (parked task (waits.resolve_right notFailed))
    · refine .inr ⟨before, ?_, waits⟩
      rw [status?_setStatus, if_neg same]
      exact h

end State

/-- No step does or drops a task, except that failed classes drop theirs. -/
theorem Change.awaits (change : Change setting state next) (awaits : state.Awaits task) :
    next.Awaits task := by
  cases change with
  | @update name cls record tasks errors found update =>
    refine awaits.revise fun status h => ?_
    rw [State.class?_eq_some.1 found] at h
    cases h
    exact ⟨(fun h => by cases h), fun _ mem => by cases mem⟩
  | extend => exact awaits.imp_left fun mem => List.mem_append_left _ mem
  | @await name parked new =>
    have kept : (state.setStatus name (.awaited parked)).Awaits task :=
      awaits.setStatus fun before h => by rw [new] at h; cases h
    exact kept
  | park status =>
    refine awaits.setStatus fun before h => ?_
    rw [status] at h
    cases h
    exact .inr ⟨(fun h => by cases h), fun _ mem => List.mem_append_left _ mem⟩
  | parkLoaded status =>
    refine awaits.setStatus fun before h => ?_
    rw [status] at h
    cases h
    exact .inr ⟨(fun h => by cases h), fun _ mem => List.mem_append_left _ mem⟩
  | @receive name unseen =>
    obtain ⟨parked, same, _, parked_eq⟩ := state.receive_eq name (setting.world name)
    have kept : (state.setStatus name (.loaded (setting.world name) parked)).Awaits task := by
      refine awaits.setStatus fun before h => ?_
      obtain ⟨before, rfl⟩ := unseen before h
      rw [parked_eq before h]
      exact .inr ⟨(fun h => by cases h), fun _ mem => mem⟩
    rw [same]
    exact kept
  | queue => exact awaits
  | absent status | link _ status =>
    refine awaits.revise fun before h => ?_
    rw [status] at h
    cases h
    exact ⟨(fun h => by cases h), fun _ mem => mem⟩
  | fail => exact awaits.setStatus fun _ _ => .inl rfl

/-- What an update owes is owed already, or is among its tasks. -/
theorem Update.owes {tasks : List Task} {errors : List Diagnostic}
    (found : state.class? name = some cls)
    (update : Update setting state cls record tasks errors) :
    (record.hasInstances = true → task ∈ record.instanceDues →
      state.Owes task ∨ task ∈ state.work ++ tasks) ∧
    (∀ key entry, record.method? key = some entry → entry.isReached = true →
      task ∈ State.methodTasks record entry → state.Owes task ∨ task ∈ tasks) := by
  cases update with
  | use | creator | inhabit | note =>
    exact ⟨fun has due => .inl (.instances found has due),
      fun key entry has reached due => .inl (.body found has reached due)⟩
  | instances _ _ dues =>
    exact ⟨fun _ due => .inr (dues task due),
      fun key entry has reached due => .inl (.body found has reached due)⟩
  | @call cause key entry errors enters =>
    refine ⟨fun has due => .inl (.instances found has due), fun other method has reached due => ?_⟩
    rw [ClassRecord.method?_withCall] at has
    split at has
    · cases has
      -- Only the first caller puts the tasks of the method on the list.
      by_cases before : entry.isReached = true
      · cases enters with
        | found has => exact .inl (.body found has before due)
        | missing | bridge | proxy => cases before
      · rw [ClassRecord.callTasks, if_neg before]
        exact .inr due
    · exact .inl (.body found has reached due)

/-- A linked class has been the same before a step, or it has just been linked or updated. -/
theorem Change.class_cases (change : Change setting state next)
    (found : next.class? name = some record) :
    state.class? name = some record ∨ (state.class? name = none ∧ record.fresh = record) ∨
      ∃ cls tasks errors, state.class? name = some cls ∧
        Update setting state cls record tasks errors ∧
          next = state.revise name record tasks errors := by
  have unchanged : next.class? = state.class? → state.class? name = some record :=
    fun same => same ▸ found
  have linked : ∀ {other cls tasks errors}, next = state.revise other cls tasks errors →
      state.class? other = none → cls.fresh = cls →
        state.class? name = some record ∨ (state.class? name = none ∧ record.fresh = record) := by
    rintro other cls tasks errors rfl before fresh_eq
    rw [State.class?_revise] at found
    split at found
    · rename_i same
      subst same
      cases found
      exact .inr ⟨before, fresh_eq⟩
    · exact .inl found
  cases change with
  | @update other cls _ tasks errors at_ update =>
    rw [State.class?_revise] at found
    split at found
    · rename_i same
      subst same
      cases found
      exact .inr (.inr ⟨cls, tasks, errors, at_, update, rfl⟩)
    · exact .inl found
  | extend | queue => exact .inl (unchanged rfl)
  | await new =>
    exact .inl (unchanged (State.class?_setStatus (State.class?_eq_none_of_new new) rfl))
  | park status | parkLoaded status | fail status =>
    exact .inl (unchanged (State.class?_setStatus (State.class?_eq_none_of_status status rfl) rfl))
  | @receive name unseen =>
    exact .inl (unchanged (State.class?_setStatus (State.class?_eq_none_of_unseen unseen) rfl))
  | absent status | link _ status =>
    exact (linked rfl (State.class?_eq_none_of_status status rfl) rfl).imp_right .inl

/-- What is owed after a step has been owed before, or is on the list by then. -/
theorem Change.owes (change : Change setting state next) (owes : next.Owes task) :
    state.Owes task ∨ task ∈ next.work := by
  cases owes with
  | instances found has due =>
    rcases change.class_cases found with before | ⟨_, new⟩ | ⟨cls, tasks, errors, at_, update, rfl⟩
    · exact .inl (.instances before has due)
    · rw [(ClassRecord.silent_of_fresh new).1] at has; cases has
    · exact (update.owes at_).1 has due
  | body found has reached due =>
    rcases change.class_cases found with before | ⟨_, new⟩ | ⟨cls, tasks, errors, at_, update, rfl⟩
    · exact .inl (.body before has reached due)
    · rw [(ClassRecord.silent_of_fresh new).2.2.2 has] at reached; cases reached
    · exact ((update.owes at_).2 _ _ has reached due).imp_right fun mem =>
        List.mem_append_right _ mem

theorem Changes.awaits (changes : Changes setting state next) (awaits : state.Awaits task) :
    next.Awaits task := by
  induction changes with
  | refl => exact awaits
  | tail _ change ih => exact change.awaits ih

/-- What is owed in the end has been owed before, or waits to be done. -/
theorem Changes.owes (changes : Changes setting state next) (owes : next.Owes task) :
    state.Owes task ∨ next.Awaits task := by
  induction changes with
  | refl => exact .inl owes
  | tail _ change ih =>
    rcases change.owes owes with owes | mem
    · exact (ih owes).imp_right change.awaits
    · exact .inr (.inl mem)

/-! ### Moves -/

theorem Move.grows (move : Move setting state next) : state.Grows next := by
  cases move with
  | change change => exact change.grows
  | take => exact { State.Grows.refl state with }

theorem Moves.grows (moves : Moves setting state next) : state.Grows next := by
  induction moves with
  | refl => exact .refl _
  | tail _ move ih => exact ih.trans move.grows

end ClassLinker
