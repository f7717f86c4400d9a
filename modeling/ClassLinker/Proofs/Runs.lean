import ClassLinker.Proofs.Arrivals
import ClassLinker.Proofs.Loading

/-!
# Whole runs

`State.InOrder` is what holds between any two steps of a run: the state is valid and consistent, the
queues are right, and every task that a run begins with or that follows from what is known has been
done or waits to be. `State.start` is in order (`State.inOrder_start`), doing a task and loading
classes keep the order (`State.InOrder.perform` and `State.InOrder.loadWanted`), and so do a step
and a run (`State.InOrder.step` and `State.inOrder_settle`). What else every step preserves is
carried to the end of a run by `State.settle_induct`.
-/

namespace ClassLinker

variable {setting : Setting} {state next : State}
variable {name other : ClassName} {cls record : ClassRecord} {task : Task}

/-! ### The tasks of a requirement -/

namespace Requirement

theorem exists_of_mem_leafTasks {isOptional : Bool} {leaf : Requirement}
    (mem : task ∈ leaf.leafTasks isOptional) :
    ∃ demand asker, task.action = .fulfil demand ∧ task.cause = .component asker := by
  unfold leafTasks at mem
  split at mem
  · obtain ⟨demand, _, rfl⟩ := List.mem_map.1 mem
    exact ⟨demand, _, rfl, rfl⟩
  · cases mem

mutual

/-- A requirement demands something of classes for some component, and nothing else. -/
theorem exists_of_mem_tasks {isOptional : Bool} :
    ∀ {requirement : Requirement}, task ∈ requirement.tasks isOptional →
      ∃ demand asker, task.action = .fulfil demand ∧ task.cause = .component asker
  | .optional _, mem => @exists_of_mem_tasks true _ mem
  | .every _, mem => exists_of_mem_tasksOfAll mem
  | .module .., mem | .instances .., mem | .tests .., mem | .typeData .., mem
  | .staticField .., mem | .call .., mem | .callDirect .., mem | .callStatic .., mem
  | .nothing, mem => exists_of_mem_leafTasks mem

theorem exists_of_mem_tasksOfAll {isOptional : Bool} :
    ∀ {all : List Requirement}, task ∈ tasksOfAll isOptional all →
      ∃ demand asker, task.action = .fulfil demand ∧ task.cause = .component asker
  | _ :: _, mem =>
    (List.mem_append.1 mem).elim exists_of_mem_tasks exists_of_mem_tasksOfAll

end

end Requirement

/-- The tasks that a run begins with. -/
def Setting.rootTasks (setting : Setting) : List Task :=
  setting.requirement.tasks false ++
    setting.entryPoints.map fun cls => { cls, action := .enter, cause := .exports }

theorem Setting.enter_mem_rootTasks (entry : name ∈ setting.entryPoints) :
    { cls := name, action := .enter, cause := .exports } ∈ setting.rootTasks :=
  List.mem_append_right _ (List.mem_map.2 ⟨name, entry, rfl⟩)

theorem Setting.justifies_rootTasks (fair : setting.IsFair) (mem : task ∈ setting.rootTasks) :
    setting.Justifies task := by
  rcases List.mem_append.1 mem with required | entered
  · obtain ⟨demand, _, action, _⟩ := Requirement.exists_of_mem_tasks required
    have asked := fair.closed _ (.required required action)
    unfold Setting.Justifies
    rw [action]
    exact asked
  · obtain ⟨name, entry, rfl⟩ := List.mem_map.1 entered
    exact entry

namespace State

/-- What holds between two steps of a run. -/
structure InOrder (setting : Setting) (state : State) : Prop where
  reached : Moves setting { allowForwarders := setting.allow } state
  valid : state.Valid setting
  rooted : ∃ record, state.class? .object = some record
  queued : state.Queued
  consistent : state.Consistent
  accounted : ∀ {task}, task ∈ setting.rootTasks ∨ state.Owes task → state.Covers task
  modules : ∀ {name cls}, state.class? name = some cls → cls.uses.module = true →
    cls.kind.isOrdinary = true → ∃ cause, state.Covers (constructorTask name cause)

/-! ### Doing the first task -/

/-- Which calls are answered does not depend on the list of tasks. -/
theorem Answered.withWork {method : MethodName} (answered : state.Answered name method)
    (rest : List Task) : { state with work := rest }.Answered name method := by
  cases answered with
  | implemented implementor reached => exact .implemented implementor reached
  | default lacks owners bare reached => exact .default lacks owners bare reached
  | missing lacks owners reached error => exact .missing lacks owners reached error

theorem Dispatched.withWork {method : MethodName} (dispatched : state.Dispatched name method)
    (rest : List Task) : { state with work := rest }.Dispatched name method := by
  unfold Dispatched at dispatched ⊢
  split at dispatched
  · rename_i reflective
    rw [if_pos reflective]
    exact dispatched
  · rename_i direct
    rw [if_neg direct]
    exact Answered.withWork dispatched rest

theorem Fulfils.withWork {demand : Demand} (fulfils : state.Fulfils cls demand)
    (rest : List Task) : { state with work := rest }.Fulfils cls demand := by
  cases demand with
  | use use => cases use <;> exact fulfils
  | call => exact fulfils
  | callDirect key =>
    by_cases space : key.space = .publicInstance
    · simp only [Fulfils, if_pos space] at fulfils ⊢
      exact Answered.withWork fulfils rest
    · simp only [Fulfils, if_neg space] at fulfils ⊢
      exact fulfils

/-- A demand whose task is covered is covered itself. -/
theorem Covers.due {demand : Demand} (covers : state.Covers task)
    (action : task.action = .fulfil demand) : state.CoversDue task := by
  refine covers.imp_right ?_
  rintro ⟨cls, found, spares, settles⟩
  refine ⟨demand, cls, action, found, spares, fun present => ?_⟩
  have done := settles present
  rwa [action] at done

/-- What a class that is entered puts on the list are demands. -/
theorem exists_of_mem_entryTasks (mem : task ∈ entryTasks cls) :
    ∃ demand, task.action = .fulfil demand := by
  unfold entryTasks at mem
  split at mem
  · cases mem
  · rcases List.mem_append.1 mem with mem | mem
    · split at mem
      · obtain rfl := List.mem_singleton.1 mem
        exact ⟨_, rfl⟩
      · cases mem
    · obtain ⟨item, _, mem⟩ := List.mem_flatMap.1 mem
      obtain ⟨demand, _, same⟩ := Demands.mem_tasks.1 mem
      exact ⟨demand, by rw [same]⟩

/-- A task that is taken off the list and done leaves everything covered that was. -/
theorem Covers.of_taken (fair : setting.IsFair) {rest : List Task} {due : Task}
    (work : state.work = task :: rest) (valid : { state with work := rest }.Valid setting)
    (changes : Changes setting { state with work := rest } next) (done : next.Covers task)
    (covers : state.Covers due) : next.Covers due := by
  let taken : State := { state with work := rest }
  have awaits : ∀ {due}, state.Awaits due → due = task ∨ taken.Awaits due := by
    intro due awaits
    rcases awaits with mem | parked
    · rw [work] at mem
      exact (List.mem_cons.1 mem).imp_right .inl
    · exact .inr (.inr parked)
  rcases covers with waits | ⟨cls, found, spares, settles⟩
  · rcases awaits waits with rfl | waits
    · exact done
    · exact Changes.covers fair valid changes (.inl waits)
  · cases action : due.action with
    | fulfil =>
      rw [action] at settles
      refine Changes.covers fair valid changes (.inr ⟨cls, found, spares, fun present => ?_⟩)
      rw [action]
      exact Fulfils.withWork (settles present) rest
    | callExact =>
      rw [action] at settles
      refine Changes.covers fair valid changes (.inr ⟨cls, found, spares, fun present => ?_⟩)
      rw [action]
      exact Dispatched.withWork (settles present) rest
    | enter =>
      rw [action] at settles
      obtain ⟨record, found', growth⟩ := (Changes.grows changes).classes found
      have spares : taken.Spares cls due := spares
      refine .inr ⟨record, found', spares.grows (Changes.grows changes) growth,
        fun present => ?_⟩
      rw [action]
      intro entered mem
      rw [entryTasks_congr growth.fresh_eq] at mem
      rcases settles (growth.isPresent_eq ▸ present) entered mem with
        waits | ⟨demand, cls, action, found, spares, fulfils⟩
      · rcases awaits waits with rfl | waits
        · obtain ⟨demand, action⟩ := exists_of_mem_entryTasks mem
          exact done.due action
        · exact Changes.coversDue fair valid changes (.inl waits)
      · exact Changes.coversDue fair valid changes (.inr ⟨demand, cls, action, found, spares,
          fun present => Fulfils.withWork (fulfils present) rest⟩)

/-- What is known when a task is taken off the list. -/
structure Takes (setting : Setting) (state : State) (task : Task) (rest : List Task) :
    Prop where
  valid : { state with work := rest }.Valid setting
  consistent : { state with work := rest }.Consistent
  justified : setting.Justifies task

/-- Taking a task off the list leaves the state as it should be. -/
theorem InOrder.takes (order : state.InOrder setting) {rest : List Task}
    (work : state.work = task :: rest) : state.Takes setting task rest where
  valid := { order.valid with
    work := fun mem => order.valid.work (work ▸ List.mem_cons_of_mem _ mem) }
  consistent := ⟨order.consistent.created, order.consistent.read, fun found resident noted =>
    Dispatched.withWork (order.consistent.dispatched found resident noted) rest⟩
  justified := order.valid.work (work ▸ List.mem_cons_self)

/-- Doing the first task keeps the order. -/
theorem InOrder.perform (fair : setting.IsFair) (order : state.InOrder setting) {rest : List Task}
    (work : state.work = task :: rest) :
    ({ state with work := rest }.perform task).InOrder setting := by
  let taken : State := { state with work := rest }
  obtain ⟨valid, consistent, justified⟩ := order.takes work
  have queued : taken.Queued :=
    ⟨⟨order.queued.nodup, order.queued.wanted⟩, order.queued.unlinked, order.queued.waits⟩
  have does := taken.performs fair valid consistent justified
  have keeps : ∀ {due}, state.Covers due → (taken.perform task).Covers due :=
    fun covers => Covers.of_taken fair work valid does.changes does.covers covers
  have takes : Move setting state taken := .take (work ▸ List.subset_cons_self ..)
  refine ⟨(order.reached.tail takes).trans (Changes.moves does.changes),
    Changes.valid fair does.changes valid, ?_, does.queued queued, does.consistent consistent,
    fun {due} accounts => ?_, fun {name record} found uses ordinary => ?_⟩
  · obtain ⟨record, found⟩ := order.rooted
    obtain ⟨later, found', _⟩ := (Changes.grows does.changes).classes found
    exact ⟨later, found'⟩
  · rcases accounts with root | owes
    · exact keeps (order.accounted (.inl root))
    · rcases Changes.owes does.changes owes with owes | awaits
      · have owes : state.Owes due := by
          cases owes with
          | instances found has due => exact .instances found has due
          | body found has reached due => exact .body found has reached due
        exact keeps (order.accounted (.inr owes))
      · exact .inl awaits
  · rcases does.modules found uses ordinary with ⟨cls, found', read⟩ | ⟨cause, mem⟩
    · obtain ⟨later, h, growth⟩ := (Changes.grows does.changes).classes found'
      obtain rfl := Option.some.inj (found.symm.trans h)
      obtain ⟨cause, covers⟩ := order.modules found' read (growth.kind_eq ▸ ordinary)
      exact ⟨cause, keeps covers⟩
    · exact ⟨cause, .inl (.inl mem)⟩

/-! ### Loading what is wanted -/

/-- Steps that only link classes keep the order, if the queues are right after them. -/
theorem InOrder.advance (fair : setting.IsFair) (order : state.InOrder setting)
    (advances : state.Advances setting next) (queued : next.Queued) : next.InOrder setting := by
  have changes := advances.changes
  have keeps : ∀ {due}, state.Covers due → next.Covers due :=
    fun covers => Changes.covers fair order.valid changes covers
  refine ⟨order.reached.trans (Changes.moves changes), Changes.valid fair changes order.valid, ?_,
    queued, advances.consistent fair order.valid order.consistent,
    fun {due} accounts => ?_, fun {name record} found uses ordinary => ?_⟩
  · obtain ⟨record, found⟩ := order.rooted
    obtain ⟨later, found', _⟩ := (Changes.grows changes).classes found
    exact ⟨later, found'⟩
  · rcases accounts with root | owes
    · exact keeps (order.accounted (.inl root))
    · rcases Changes.owes changes owes with owes | awaits
      · exact keeps (order.accounted (.inr owes))
      · exact .inl awaits
  · rcases advances.links found with before | ⟨_, fresh⟩
    · obtain ⟨cause, covers⟩ := order.modules before uses ordinary
      exact ⟨cause, keeps covers⟩
    · rw [← fresh] at uses; cases uses

/-- How the classes that are wanted come in: the answers are right, and the state in which they
have all been taken in is ready for linking. -/
structure Loads (setting : Setting) (state : State)
    (answers : List (Except LoadError (Option ClassSummary))) (middle next : State) : Prop where
  names : (state.wanted.zip answers).map Prod.fst = state.wanted
  received : { state with wanted := [] }.receiveAll (state.wanted.zip answers) = .ok middle
  next_eq : next = middle.linkAvailable
  correct : ∀ name summary, (name, .ok summary) ∈ state.wanted.zip answers →
    summary = setting.world name
  nodup : ((state.wanted.zip answers).map Prod.fst).Nodup
  awaited : ∀ name ∈ (state.wanted.zip answers).map Prod.fst, ∃ parked,
    state.status? name = some (.awaited parked)
  advances : state.Advances setting middle
  asks : middle.Asks
  listed : ∀ {name}, middle.isLoaded name = true → name ∈ middle.unlinked

theorem Loads.rootFirst {answers : List (Except LoadError (Option ClassSummary))} {middle : State}
    (loads : state.Loads setting answers middle next)
    (rooted : ∃ record, state.class? .object = some record) : middle.RootFirst := by
  intro name _ _
  obtain ⟨record, found⟩ := rooted
  obtain ⟨later, found', _⟩ := (Changes.grows loads.advances.changes).classes found
  exact ⟨later, found'⟩

theorem InOrder.loads (order : state.InOrder setting) {loader : Loader}
    (world : setting.world = loader.knows) (loads : (state.loadWanted loader).1 = .ok next) :
    ∃ answers middle, state.Loads setting answers middle next := by
  obtain ⟨_, length, correct⟩ := loader.loadSummaries_spec state.wanted
  simp only [State.loadWanted] at loads
  generalize (loader.loadSummaries state.wanted).1 = answers at loads length correct
  let cleared : State := { state with wanted := [] }
  have clears : state.Advances setting cleared :=
    .of_class?_eq (.single (.queue [] state.unlinked)) rfl
  have names : (state.wanted.zip answers).map Prod.fst = state.wanted :=
    List.map_fst_zip (Nat.le_of_eq length.symm)
  cases received : cleared.receiveAll (state.wanted.zip answers) with
  | error => rw [received] at loads; cases loads
  | ok middle =>
    rw [received] at loads
    have correct : ∀ name summary, (name, .ok summary) ∈ state.wanted.zip answers →
        summary = setting.world name := fun name summary mem => world ▸ correct name summary mem
    have nodup : ((state.wanted.zip answers).map Prod.fst).Nodup :=
      names.symm ▸ order.queued.nodup
    have awaited : ∀ name ∈ (state.wanted.zip answers).map Prod.fst, ∃ parked,
        state.status? name = some (.awaited parked) :=
      fun name mem => order.queued.wanted.1 (names ▸ mem)
    obtain ⟨takes, wanted, listed, left⟩ :=
      advances_receiveAll received correct nodup awaited order.queued.unlinked
    refine ⟨answers, middle, names, received, (Except.ok.inj loads).symm, correct, nodup, awaited,
      clears.trans takes, ⟨wanted ▸ List.nodup_nil, fun {name} => ⟨fun mem => ?_, ?_⟩⟩, listed⟩
    · rw [wanted] at mem; cases mem
    · rintro ⟨parked, h⟩
      obtain ⟨before, apart⟩ := left h
      exact absurd (order.queued.wanted.2 ⟨parked, before⟩) (names ▸ apart)

/-- Loading the classes that are wanted keeps the order. -/
theorem InOrder.loadWanted (fair : setting.IsFair) (order : state.InOrder setting)
    {loader : Loader} (world : setting.world = loader.knows)
    (loads : (state.loadWanted loader).1 = .ok next) : next.InOrder setting := by
  obtain ⟨answers, middle, loads⟩ := order.loads world loads
  have valid := Changes.valid fair loads.advances.changes order.valid
  obtain ⟨links, queued⟩ := advances_linkAvailable fair valid (loads.rootFirst order.rooted)
    loads.asks loads.listed
  rw [loads.next_eq]
  exact order.advance fair (loads.advances.trans links) queued

/-! ### The start of a run -/

/-- The state in which the summary of the root class has been taken in, and nothing else. -/
def rootLoaded (allowForwarders : Bool) (root : ClassSummary) : State :=
  ({ allowForwarders } : State).receive .object (some root)

theorem status?_rootLoaded (allowForwarders : Bool) (root : ClassSummary) (name : ClassName) :
    (rootLoaded allowForwarders root).status? name =
      if ClassName.object = name then some (.loaded (some root) []) else none := by
  obtain ⟨parked, same, none_parked, _⟩ :=
    receive_eq { allowForwarders } .object (some root)
  rw [rootLoaded, same]
  show (setStatus { allowForwarders } .object _).status? name = _
  rw [status?_setStatus, status?_blank, none_parked (status?_blank ..)]

theorem isLoaded_rootLoaded {allowForwarders : Bool} {root : ClassSummary}
    (loaded : (rootLoaded allowForwarders root).isLoaded name = true) : name = .object := by
  obtain ⟨summary, parked, h⟩ := isLoaded_iff.1 loaded
  rw [status?_rootLoaded] at h
  split at h
  · rename_i same; exact same.symm
  · cases h

theorem rootFirst_rootLoaded (allowForwarders : Bool) (root : ClassSummary) :
    (rootLoaded allowForwarders root).RootFirst :=
  fun _ loaded ne => absurd (isLoaded_rootLoaded loaded) ne

theorem asks_rootLoaded (allowForwarders : Bool) (root : ClassSummary) :
    (rootLoaded allowForwarders root).Asks := by
  refine ⟨List.nodup_nil, fun {name} => ⟨fun mem => (by cases mem), ?_⟩⟩
  rintro ⟨parked, h⟩
  rw [status?_rootLoaded] at h
  split at h <;> cases h

/-- Taking in the summary of the root class. -/
theorem advances_rootLoaded {root : ClassSummary} (known : setting.world .object = some root) :
    Advances setting { allowForwarders := setting.allow } (rootLoaded setting.allow root) := by
  have change := @Change.receive setting { allowForwarders := setting.allow } .object
    fun status h => by rw [status?_blank] at h; cases h
  rw [known] at change
  exact .of_class?_eq (.single change) (class?_setStatus (class?_blank ..) rfl)

/-- The root class gets linked. -/
theorem exists_root_of_linkAvailable (fair : setting.IsFair) {root : ClassSummary}
    (known : setting.world .object = some root) (isRoot : root.isRoot = true) :
    ∃ record, (rootLoaded setting.allow root).linkAvailable.class? .object = some record := by
  let start : State := { rootLoaded setting.allow root with unlinked := [] }
  have status : start.status? .object = some (.loaded (some root) []) := by
    rw [show start.status? .object = _ from status?_rootLoaded .., if_pos rfl]
  have parents : start.openParents .object = [] := by
    unfold openParents
    rw [status]
    exact ClassSummary.parents_of_isRoot isRoot
  have loaded : start.isLoaded .object = true := isLoaded_of_status status
  have valid : start.Valid setting :=
    Changes.valid fair ((advances_rootLoaded known).changes.tail (.queue [] [])) (valid_empty _)
  have first : start.RootFirst := rootFirst_rootLoaded _ _
  obtain ⟨steps, settled⟩ := linkSteps_linkIfReady fair valid first loaded fun above mem => by
    obtain ⟨name, pending, leads⟩ := exists_of_mem_preorder mem
    obtain rfl := List.mem_singleton.1 pending
    rcases Relation.ReflTransGen.cases_head leads with rfl | ⟨next, edge, _⟩
    · unfold isAvailable
      rw [status]
    · rw [parents] at edge
      cases edge
  have same : (rootLoaded setting.allow root).linkAvailable.class? =
      (start.linkIfReady .object).class? := rfl
  rw [same]
  rcases settled with linked | failed
  · exact linked
  · have valid' := Changes.valid fair (LinkSteps.changes steps) valid
    obtain ⟨record, links⟩ := Universe.Links.exists_object fair.rooted
    exact absurd links (valid'.failed failed record)

/-- The state in which a run begins is in order. -/
theorem inOrder_start (fair : setting.IsFair) {root : ClassSummary}
    (known : setting.world .object = some root) (isRoot : root.isRoot = true) :
    (State.start setting.allow root setting.requirement setting.entryPoints).InOrder setting := by
  have takes := advances_rootLoaded known
  have valid := Changes.valid fair takes.changes (valid_empty setting)
  obtain ⟨links, queued⟩ := advances_linkAvailable fair valid (rootFirst_rootLoaded _ _)
    (asks_rootLoaded _ _) fun loaded => List.mem_singleton.2 (isLoaded_rootLoaded loaded)
  have adds : Advances setting (rootLoaded setting.allow root).linkAvailable
      (State.start setting.allow root setting.requirement setting.entryPoints) := by
    refine .of_class?_eq (.single ?_) rfl
    have change := @Change.extend setting (rootLoaded setting.allow root).linkAvailable
      setting.rootTasks [] fun _ mem => Setting.justifies_rootTasks fair mem
    rw [← addTasks_eq] at change
    exact change
  have all := takes.trans (links.trans adds)
  have blank : Consistent { allowForwarders := setting.allow } := by
    refine ⟨fun found => ?_, fun found => ?_, fun found => ?_⟩ <;>
      · rw [class?_blank] at found
        cases found
  refine ⟨Changes.moves all.changes, Changes.valid fair all.changes (valid_empty setting),
    exists_root_of_linkAvailable fair known isRoot,
    ⟨⟨queued.nodup, queued.wanted⟩, queued.unlinked, queued.waits⟩,
    all.consistent fair (valid_empty setting) blank, fun {task} accounts => .inl ?_,
    fun {name record} found uses _ => ?_⟩
  · rcases accounts with root | owes
    · exact .inl (List.mem_append_right _ root)
    · refine (Changes.owes all.changes owes).resolve_left fun owes => ?_
      cases owes with
      | instances found | body found => rw [class?_blank] at found; cases found
  · rcases all.links found with before | ⟨_, fresh⟩
    · rw [class?_blank] at before; cases before
    · rw [← fresh] at uses; cases uses

/-! ### Runs -/

/-- A step does the first task, or takes in all classes that are wanted. -/
theorem step_cases {before after : Loader} (steps : state.step before = (.ok next, after)) :
    (∃ task rest, state.work = task :: rest ∧
        next = ({ state with work := rest } : State).perform task ∧ after = before) ∨
      (state.work = [] ∧ (state.loadWanted before).1 = .ok next ∧
        after = (before.loadSummaries state.wanted).2) := by
  unfold step at steps
  cases work : state.work with
  | cons task rest =>
    rw [work] at steps
    obtain ⟨performs, same⟩ := Prod.mk.inj steps
    exact .inl ⟨task, rest, rfl, (Except.ok.inj performs).symm, same.symm⟩
  | nil =>
    rw [work] at steps
    exact .inr ⟨rfl, congrArg Prod.fst steps, (congrArg Prod.snd steps).symm⟩

/-- A step keeps the order. -/
theorem InOrder.step (fair : setting.IsFair) (order : state.InOrder setting)
    {before after : Loader} (world : setting.world = before.knows)
    (steps : state.step before = (.ok next, after)) :
    next.InOrder setting ∧ before.Loads after := by
  rcases step_cases steps with ⟨task, rest, work, rfl, rfl⟩ | ⟨_, loads, rfl⟩
  · exact ⟨order.perform fair work, .refl⟩
  · exact ⟨order.loadWanted fair world loads, (before.loadSummaries_spec state.wanted).1⟩

/-- What every step preserves holds where a run ends, and there nothing is left to do. -/
theorem settle_induct {motive : State → Loader → Prop}
    (preserves : ∀ {state next before after}, motive state before → state.isSettled = false →
      state.step before = (.ok next, after) → motive next after)
    (steps : Nat) {before after : Loader} (start : motive state before)
    (ends : state.settle steps before = (.ok next, after)) :
    motive next after ∧ next.isSettled = true := by
  induction steps generalizing state before with
  | zero =>
    unfold settle at ends
    split at ends
    · rename_i settled
      cases ends
      exact ⟨start, settled⟩
    · cases ends
  | succ steps ih =>
    unfold settle at ends
    split at ends
    · rename_i settled
      cases ends
      exact ⟨start, settled⟩
    · rename_i busy
      cases stepped : state.step before with
      | mk result later =>
        rw [stepped] at ends
        cases result with
        | error => cases ends
        | ok middle => exact ih (preserves start (Bool.eq_false_iff.2 busy) stepped) ends

/-- A run keeps the order, and ends where nothing is left to do. -/
theorem inOrder_settle (fair : setting.IsFair) (steps : Nat) {loader after : Loader}
    (world : setting.world = loader.knows) (order : state.InOrder setting)
    (ends : state.settle steps loader = (.ok next, after)) :
    next.InOrder setting ∧ next.isSettled = true ∧ loader.Loads after := by
  have preserves : ∀ {state next : State} {before after : Loader},
      state.InOrder setting ∧ loader.Loads before → state.isSettled = false →
        state.step before = (.ok next, after) → next.InOrder setting ∧ loader.Loads after := by
    rintro state next before after ⟨order, early⟩ _ stepped
    obtain ⟨order, late⟩ := order.step fair (world.trans early.knows.symm) stepped
    exact ⟨order, early.trans late⟩
  obtain ⟨⟨order, loads⟩, settled⟩ := settle_induct preserves steps ⟨order, .refl⟩ ends
  exact ⟨order, settled, loads⟩

end State

end ClassLinker
