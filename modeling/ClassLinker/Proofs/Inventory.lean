import ClassLinker.Proofs.Bridges
import ClassLinker.Proofs.Courses
import ClassLinker.Proofs.Effects

/-!
# The names that a run can meet

An `Inventory` lists names of classes and methods. If it has those that the requirement, the entry
points and the summaries of a loader mention, together with the root class, the default constructor
and the static initializer, then a run meets no others: every task, every entry of a method and
every call that is noted is listed (`Inventory.ListsState`). `Effect.listsState` and
`Linking.listsState` are the steps, and `Turns.listsState` any number of them.

Whatever gives rise to tasks does so for names that the summary of its class mentions, and for no
more of them than the weight of the summary (`Inventory.Admits`).
-/

namespace ClassLinker

variable {setting : Setting} {state next : State}
variable {name other owner : ClassName} {cls record : ClassRecord} {task : Task}
variable {key : MethodKey} {entry : MethodRecord} {cause : Cause} {errors : List Diagnostic}
variable {tasks : List Task} {summary : ClassSummary}

/-! ### What is mentioned -/

/-- The method that is demanded. -/
def Demand.method? : Demand → Option MethodName
  | .use _ => none
  | .call method => some method
  | .callDirect key => some key.name

/-- The method that is called. -/
def Action.method? : Action → Option MethodName
  | .fulfil demand => demand.method?
  | .callExact method => some method
  | .enter => none

/-- Names of classes and methods, and a bound for the weight of summaries. No class is listed twice,
so that classes can be counted. -/
structure Inventory where
  classes : List ClassName
  nodup : classes.Nodup
  methods : List MethodName
  weight : Nat

variable {inv : Inventory}

namespace Inventory

/-- The class and the method, if there is one, are listed. -/
def Lists (inv : Inventory) (cls : ClassName) (method? : Option MethodName) : Prop :=
  cls ∈ inv.classes ∧ ∀ method, method? = some method → method ∈ inv.methods

/-- The names in the task are listed. -/
def ListsTask (inv : Inventory) (task : Task) : Prop :=
  inv.Lists task.cls task.action.method?

/-- The names in the summary are listed, and it is not too heavy. -/
structure ListsSummary (inv : Inventory) (summary : ClassSummary) : Prop where
  weight : summary.weight ≤ inv.weight
  parents : ∀ parent ∈ summary.parents, parent ∈ inv.classes
  fieldClasses : ∀ field ∈ summary.fieldClasses, field ∈ inv.classes
  methods : ∀ method ∈ summary.methods, method.name ∈ inv.methods
  demands : ∀ demands ∈ summary.allDemands, ∀ item ∈ demands.toList,
    inv.Lists item.1 item.2.method?

/-- The names in all summaries are listed, and those that the analysis itself brings in. -/
structure ListsWorld (inv : Inventory) (world : Universe) : Prop where
  object : .object ∈ inv.classes
  defaultConstructor : .defaultConstructor ∈ inv.methods
  classInit : .classInit ∈ inv.methods
  summaries : ∀ {name summary}, world name = some summary → inv.ListsSummary summary

/-- So are those in the tasks that a run begins with. -/
structure ListsSetting (inv : Inventory) (setting : Setting) : Prop where
  world : inv.ListsWorld setting.world
  roots : ∀ task ∈ setting.rootTasks, inv.ListsTask task

/-- The names that the state has met are listed. Tasks are parked with their own classes. -/
structure ListsState (inv : Inventory) (state : State) : Prop where
  table : ∀ {name status}, state.status? name = some status → name ∈ inv.classes
  parked : ∀ {name status task}, state.status? name = some status → task ∈ status.parked →
    task.cls = name ∧ inv.ListsTask task
  work : ∀ {task}, task ∈ state.work → inv.ListsTask task
  methods : ∀ {name cls key entry}, state.class? name = some cls → cls.method? key = some entry →
    key.name ∈ inv.methods
  calls : ∀ {name cls call}, state.class? name = some cls → call ∈ cls.calls →
    call.1 ∈ inv.methods

/-- These tasks follow from something in a class: they are listed, there are not too many of them,
and none of them enters a class. -/
structure Admits (inv : Inventory) (tasks : List Task) : Prop where
  lists : ∀ task ∈ tasks, inv.ListsTask task
  asks : ∀ task ∈ tasks, task.action ≠ .enter
  length_le : tasks.length ≤ inv.weight + 1

namespace Admits

theorem nil : inv.Admits [] :=
  ⟨fun _ mem => (by cases mem), fun _ mem => (by cases mem), Nat.zero_le _⟩

theorem singleton (lists : inv.ListsTask task) (asks : task.action ≠ .enter) : inv.Admits [task] :=
  ⟨fun _ mem => List.mem_singleton.1 mem ▸ lists, fun _ mem => List.mem_singleton.1 mem ▸ asks,
    Nat.succ_le_succ (Nat.zero_le _)⟩

end Admits

end Inventory

/-! ### Tasks -/

theorem Demands.length_tasks (demands : Demands) (cause : Cause) :
    (demands.tasks cause).length = demands.toList.length :=
  List.length_map ..

namespace ClassSummary

/-- A part of the code of a class demands less than the class weighs. -/
theorem length_demands_lt {demands : Demands} (mem : demands ∈ summary.allDemands) :
    demands.toList.length < summary.weight := by
  have le : demands.toList.length ≤ (summary.allDemands.flatMap Demands.toList).length :=
    (List.sublist_flatten_of_mem (List.mem_map_of_mem mem)).length_le
  unfold weight
  omega

/-- So do all exported members, together with the fields. -/
theorem length_members_lt (summary : ClassSummary) :
    (summary.exportedMembers.flatMap Demands.toList).length + summary.fieldClasses.length <
      summary.weight := by
  simp only [weight, allDemands, List.flatMap_append, List.length_append]
  omega

/-- So do all exports. -/
theorem length_exports_lt (summary : ClassSummary) :
    (summary.exports.flatMap fun item => item.demands.toList).length < summary.weight := by
  simp only [weight, allDemands, List.flatMap_append, List.flatMap_map, List.length_append]
  omega

end ClassSummary

namespace Inventory

/-- The names in what has been added to a class are listed. -/
def ListsForwarder (inv : Inventory) (id : MethodId) : Forwarder → Prop
  | .bridge interface => inv.Lists interface (some id.name)
  | .proxy target => inv.Lists id.owner (some target)

/-- What the code of a class demands is listed. -/
theorem ListsSummary.of_mem_tasks (lists : inv.ListsSummary summary) {demands : Demands}
    (mem : demands ∈ summary.allDemands) (due : task ∈ demands.tasks cause) :
    inv.ListsTask task ∧ task.action ≠ .enter := by
  obtain ⟨demand, listed, same⟩ := Demands.mem_tasks.1 due
  have item := lists.demands demands mem _ listed
  rw [same]
  exact ⟨item, by simp⟩

/-- So is what the exported members demand. -/
theorem ListsSummary.of_mem_exportedMemberTasks (lists : inv.ListsSummary summary)
    (known : cls.summary = some summary) (due : task ∈ State.exportedMemberTasks cls) :
    inv.ListsTask task ∧ task.action ≠ .enter := by
  simp only [State.exportedMemberTasks, known] at due
  obtain ⟨member, mem, due⟩ := List.mem_flatMap.1 due
  exact lists.of_mem_tasks (List.mem_append_left _ (List.mem_append_right _ mem)) due

theorem length_exportedMemberTasks (known : cls.summary = some summary) :
    (State.exportedMemberTasks cls).length =
      (summary.exportedMembers.flatMap Demands.toList).length := by
  simp only [State.exportedMemberTasks, known, List.length_flatMap, Demands.length_tasks]

section

variable (lists : ∀ summary, cls.summary = some summary → inv.ListsSummary summary)

include lists

/-- What follows from a method being reachable. -/
theorem admits_methodTasks
    (added : ∀ forwarder, entry.forwarder = some forwarder →
      inv.ListsForwarder entry.id forwarder) : inv.Admits (State.methodTasks cls entry) := by
  unfold State.methodTasks
  simp only
  split
  · rename_i interface forwards
    exact .singleton (added _ forwards) (by simp)
  · rename_i target forwards
    exact .singleton (added _ forwards) (by simp)
  · split
    · split
      · rename_i declared has
        obtain ⟨summary, known, has⟩ := Option.bind_eq_some_iff.1 has
        have mem := List.mem_of_find?_eq_some has
        have listed := lists summary known
        have listed_demands : declared.demands ∈ summary.allDemands :=
          List.mem_append_left _ (List.mem_append_left _ (List.mem_map_of_mem mem))
        refine ⟨fun task due => (listed.of_mem_tasks listed_demands due).1,
          fun task due => (listed.of_mem_tasks listed_demands due).2, ?_⟩
        have lighter := ClassSummary.length_demands_lt listed_demands
        have weight := listed.weight
        rw [Demands.length_tasks]
        omega
      · exact .nil
    · exact .nil

/-- What follows from there being instances of a class. -/
theorem admits_instanceTasks : inv.Admits (State.instanceTasks cls) := by
  cases known : cls.summary with
  | none =>
    simp only [State.instanceTasks, known]
    exact .nil
  | some summary =>
    have listed := lists summary known
    have each : ∀ task ∈ State.instanceTasks cls, inv.ListsTask task ∧ task.action ≠ .enter := by
      intro task due
      simp only [State.instanceTasks, known] at due
      rcases List.mem_append.1 due with due | due
      · split at due
        · cases due
        · exact listed.of_mem_exportedMemberTasks known due
      · obtain ⟨field, mem, rfl⟩ := List.mem_map.1 due
        exact ⟨⟨listed.fieldClasses field mem, fun _ h => by cases h⟩, by simp⟩
    refine ⟨fun task due => (each task due).1, fun task due => (each task due).2, ?_⟩
    have lighter := summary.length_members_lt
    have weight := listed.weight
    have length := length_exportedMemberTasks known
    simp only [State.instanceTasks, known, List.length_append, List.length_map]
    split
    · rw [List.length_nil]
      omega
    · omega

/-- What follows from instances of a JavaScript class, apart from what follows from any. -/
theorem admits_createJS (above : ∀ parent, cls.superClass = some parent → parent ∈ inv.classes) :
    inv.Admits (cls.superTasks ++ State.exportedMemberTasks cls) := by
  have supers : ∀ task ∈ cls.superTasks, inv.ListsTask task ∧ task.action ≠ .enter := by
    intro task due
    obtain ⟨parent, mem, rfl⟩ := List.mem_map.1 due
    exact ⟨⟨above parent (Option.mem_toList.1 mem), fun _ h => by cases h⟩, by simp⟩
  have one : cls.superTasks.length ≤ 1 := by
    rw [ClassRecord.superTasks, List.length_map]
    exact Option.length_toList_le
  cases known : cls.summary with
  | none =>
    simp only [State.exportedMemberTasks, known, List.append_nil]
    exact ⟨fun task due => (supers task due).1, fun task due => (supers task due).2, by omega⟩
  | some summary =>
    have listed := lists summary known
    have each : ∀ task ∈ cls.superTasks ++ State.exportedMemberTasks cls,
        inv.ListsTask task ∧ task.action ≠ .enter := fun task due =>
      (List.mem_append.1 due).elim (supers task) (listed.of_mem_exportedMemberTasks known)
    refine ⟨fun task due => (each task due).1, fun task due => (each task due).2, ?_⟩
    have lighter := summary.length_members_lt
    have weight := listed.weight
    rw [List.length_append, length_exportedMemberTasks known]
    omega

/-- What runs or is exported of a class even if nothing refers to it. -/
theorem admits_entryTasks (owned : cls.name ∈ inv.classes)
    (initializer : .classInit ∈ inv.methods) :
    inv.Admits (State.entryTasks cls) := by
  cases known : cls.summary with
  | none =>
    simp only [State.entryTasks, known]
    exact .nil
  | some summary =>
    have listed := lists summary known
    have each : ∀ task ∈ State.entryTasks cls, inv.ListsTask task ∧ task.action ≠ .enter := by
      intro task due
      simp only [State.entryTasks, known] at due
      rcases List.mem_append.1 due with due | due
      · split at due
        · obtain rfl := List.mem_singleton.1 due
          refine ⟨⟨owned, fun method h => ?_⟩, by simp⟩
          cases h
          exact initializer
        · cases due
      · obtain ⟨item, mem, due⟩ := List.mem_flatMap.1 due
        exact listed.of_mem_tasks (List.mem_append_right _ (List.mem_map_of_mem mem)) due
    refine ⟨fun task due => (each task due).1, fun task due => (each task due).2, ?_⟩
    have lighter := summary.length_exports_lt
    have weight := listed.weight
    rw [List.length_flatMap] at lighter
    simp only [State.entryTasks, known, List.length_append, List.length_flatMap,
      Demands.length_tasks]
    split
    · rw [List.length_singleton]
      omega
    · rw [List.length_nil]
      omega

end

end Inventory

/-! ### Calls -/

/-- The analysis can add this to the class as the method. -/
def State.Chooses (state : State) (name : ClassName) (method : MethodName) : Forwarder → Prop
  | .bridge interface => interface ∈ state.defaultOwners name method
  | .proxy target => state.proxyTarget? name method = some target

/-- What a call finds in the class that it lands in: a method that is there, an absent one, or one
that is added, in place of no code. -/
inductive Finds (state : State) (owner : ClassName) (cls : ClassRecord) (key : MethodKey) :
    MethodRecord → Prop
  | there {entry : MethodRecord} (has : cls.method? key = some entry) :
      Finds state owner cls key entry
  | absent (lacks : cls.method? key = none) :
      Finds state owner cls key (.absent ⟨owner, key.space, key.name⟩)
  | added {forwarder : Forwarder}
      (replaces : ∀ known, cls.method? key = some known → known.isConcrete = false)
      (chosen : state.Chooses owner key.name forwarder) :
      Finds state owner cls key
        { id := ⟨owner, key.space, key.name⟩, forwarder := some forwarder }

theorem Landing.finds (found : state.class? owner = some cls)
    (landing : Landing state name cause key owner cls entry errors) :
    Finds state owner cls key entry := by
  cases landing with
  | resolved resolved =>
    cases resolved with
    | inherited _ has | default _ _ _ _ has => exact .there has
    | @missing method =>
      cases known : cls.method? ⟨.publicInstance, _⟩ with
      | some known => exact .there known
      | none => exact .absent known
    | bridge _ _ lacks owners =>
      refine .added (fun known has => ?_) ?_
      · refine Bool.eq_false_iff.2 fun concrete => lacks _ (.here found ?_)
        rw [ClassRecord.hasConcrete, has]
        exact concrete
      · show _ ∈ state.defaultOwners _ _
        rw [owners]
        exact List.mem_cons_self
  | own has => exact .there has
  | absent lacks => exact .absent lacks
  | proxy _ _ _ lacks chosen =>
    refine .added (fun known has => ?_) chosen
    rw [lacks] at has
    cases has

namespace Inventory

/-- What is added to a class names classes and methods that the state has met. -/
theorem ListsState.of_chooses (lists : inv.ListsState state) (fair : setting.IsFair)
    (valid : state.Valid setting) (found : state.class? owner = some cls) {method : MethodName}
    (listed : method ∈ inv.methods) {forwarder : Forwarder}
    (chosen : state.Chooses owner method forwarder) :
    inv.ListsForwarder ⟨owner, .publicInstance, method⟩ forwarder := by
  have linked : ∀ {name cls}, state.class? name = some cls → name ∈ inv.classes :=
    fun found => lists.table (State.class?_eq_some.1 found)
  cases forwarder with
  | bridge interface =>
    have chosen : interface ∈ state.defaultOwners owner method := chosen
    rw [state.defaultOwners_eq] at chosen
    obtain ⟨_, record, found', _⟩ := exists_of_mem_defaultOwnersIn valid.follows found chosen
    exact ⟨linked found', fun _ h => Option.some.inj h ▸ listed⟩
  | proxy target =>
    obtain ⟨record, entry, at_, _, has, _⟩ := valid.exists_of_proxyTarget fair found chosen
    exact ⟨linked found, fun _ h => Option.some.inj h ▸ lists.methods at_ has⟩

namespace ListsState

/-- The super class of a linked class is listed. -/
theorem parent_mem (lists : inv.ListsState state) (fair : setting.IsFair)
    (valid : state.Valid setting) (found : state.class? name = some cls)
    (extends_ : cls.superClass = some other) : other ∈ inv.classes := by
  obtain ⟨record, linked⟩ :=
    valid.follows.ancestor found (valid.follows.superClass_mem fair.rooted found extends_)
  exact lists.table (State.class?_eq_some.1 linked)

/-- Where the same is known of all classes, and no tasks are new, the state is still listed. -/
theorem requeue (lists : inv.ListsState state) (same : next.status? = state.status?)
    (fewer : next.work ⊆ state.work) : inv.ListsState next := by
  have classes : next.class? = state.class? := by
    funext name
    rw [State.class?, same, State.class?]
  exact ⟨fun h => lists.table (same ▸ h), fun h => lists.parked (same ▸ h),
    fun mem => lists.work (fewer mem), fun found => lists.methods (classes ▸ found),
    fun found => lists.calls (classes ▸ found)⟩

theorem extend (lists : inv.ListsState state) (listed : ∀ task ∈ tasks, inv.ListsTask task)
    (errors : List Diagnostic) : inv.ListsState (state.extend tasks errors) :=
  { lists with
    work := fun {task} mem => (List.mem_append.1 mem).elim lists.work (listed task) }

/-- A class that is not linked goes on to a status in which it is not linked. -/
theorem setStatus (lists : inv.ListsState state) (mem : name ∈ inv.classes) {status : Status}
    (unlinked : status.record? = none)
    (parked : ∀ task ∈ status.parked, task.cls = name ∧ inv.ListsTask task) :
    inv.ListsState (state.setStatus name status) := by
  have before : ∀ {other cls}, (state.setStatus name status).class? other = some cls →
      state.class? other = some cls := by
    intro other cls found
    rw [State.class?, State.status?_setStatus] at found
    split at found
    · rw [Option.bind_some, unlinked] at found
      cases found
    · exact found
  refine ⟨fun {other known} h => ?_, fun {other known task} h due => ?_, lists.work,
    fun found => lists.methods (before found), fun found => lists.calls (before found)⟩
  · rcases State.status_of_setStatus h with ⟨rfl, _⟩ | h
    · exact mem
    · exact lists.table h
  · rcases State.status_of_setStatus h with ⟨rfl, rfl⟩ | h
    · exact parked task due
    · exact lists.parked h due

/-- A class is linked or changed. -/
theorem revise (lists : inv.ListsState state) (mem : name ∈ inv.classes)
    (methods : ∀ {key entry}, record.method? key = some entry → key.name ∈ inv.methods)
    (calls : ∀ call ∈ record.calls, call.1 ∈ inv.methods)
    (listed : ∀ task ∈ tasks, inv.ListsTask task) (errors : List Diagnostic) :
    inv.ListsState (state.revise name record tasks errors) := by
  refine ⟨fun {other status} h => ?_, fun {other status task} h due => ?_,
    fun {task} mem => (List.mem_append.1 mem).elim lists.work (listed task),
    fun {other cls key entry} found has => ?_, fun {other cls call} found noted => ?_⟩
  · rw [State.status?_revise] at h
    split at h
    · exact ‹name = other› ▸ mem
    · exact lists.table h
  · rw [State.status?_revise] at h
    split at h
    · cases h
      cases due
    · exact lists.parked h due
  · rw [State.class?_revise] at found
    split at found
    · cases found
      exact methods has
    · exact lists.methods found has
  · rw [State.class?_revise] at found
    split at found
    · cases found
      exact calls call noted
    · exact lists.calls found noted

/-- Something that is not about its methods is learned of a class. -/
theorem learn (lists : inv.ListsState state) (found : state.class? name = some cls)
    (learns : cls.Learns record)
    (noted : ∀ call ∈ record.calls, call ∈ cls.calls ∨ call.1 ∈ inv.methods)
    (listed : ∀ task ∈ tasks, inv.ListsTask task) :
    inv.ListsState (state.revise name record tasks []) := by
  refine lists.revise (lists.table (State.class?_eq_some.1 found)) (fun {key entry} has => ?_)
    (fun call mem => (noted call mem).elim (lists.calls found) id) listed []
  rw [ClassRecord.method?, learns.methods_eq] at has
  exact lists.methods found has

end ListsState

end Inventory

/-- The summary of a linked class is listed. -/
theorem Inventory.ListsWorld.of_linked (world : inv.ListsWorld setting.world)
    (valid : state.Valid setting) (found : state.class? name = some cls) :
    ∀ summary, cls.summary = some summary → inv.ListsSummary summary := fun _ known =>
  world.summaries ((valid.follows.summary_eq found).symm.trans known)

section

variable (fair : setting.IsFair) (world : inv.ListsWorld setting.world)
  (valid : state.Valid setting) (lists : inv.ListsState state)

include fair world valid lists

/-- A call for a method that is listed gives rise to no more tasks than a summary weighs. -/
theorem Finds.admits (found : state.class? owner = some cls) (named : key.name ∈ inv.methods)
    (finds : Finds state owner cls key entry) : inv.Admits (cls.callTasks entry) := by
  unfold ClassRecord.callTasks
  split
  · exact .nil
  · rename_i unreached
    refine Inventory.admits_methodTasks (world.of_linked valid found) fun forwarder forwards => ?_
    cases finds with
    | there has =>
      -- What has been added has been called at once.
      cases (valid.classes found).entries has with
      | declared _ _ _ _ own | missing _ _ _ own => rw [own] at forwards; cases forwards
      | added _ _ _ _ _ _ _ _ _ _ reached => exact absurd reached unreached
    | absent => cases forwards
    | added _ chosen =>
      cases forwards
      exact lists.of_chooses fair valid found named chosen

theorem State.Lands.listsState (named : key.name ∈ inv.methods)
    (lands : state.Lands name key cause next) : inv.ListsState next := by
  cases lands with
  | @intro owner cls entry errors found landing =>
    have admits := (landing.finds found).admits fair world valid lists found named
    have calls : ∀ call ∈ (cls.withCall key entry cause).calls, call.1 ∈ inv.methods :=
      fun call mem => lists.calls found mem
    refine lists.revise (lists.table (State.class?_eq_some.1 found)) (fun {other known} has => ?_)
      calls admits.lists errors
    rw [ClassRecord.method?_withCall] at has
    split at has
    · exact ‹key = other› ▸ named
    · exact lists.methods found has

end

/-- What instances of a class bring up is listed. -/
theorem State.listsState_markInstances (lists : inv.ListsState state)
    (known : ∀ cls, state.class? name = some cls →
      ∀ summary, cls.summary = some summary → inv.ListsSummary summary) :
    inv.ListsState (state.markInstances name) := by
  rcases state.markInstances_cases name with same | ⟨cls, found, _, same⟩
  · rw [same]
    exact lists
  · rw [same]
    exact lists.learn found .instances (fun _ mem => .inl mem)
      (Inventory.admits_instanceTasks (known cls found)).lists

theorem State.listsState_addInhabited (lists : inv.ListsState state) (name ancestor : ClassName) :
    inv.ListsState (state.addInhabited name ancestor) := by
  rcases state.addInhabited_cases name ancestor with same | ⟨cls, found, same⟩
  · rw [same]
    exact lists
  · rw [same]
    exact lists.learn found (.inhabit name) (fun _ mem => .inl mem) fun _ mem => by cases mem

/-- What an effect of a listed task brings up is listed. -/
theorem Effect.listsState (fair : setting.IsFair) (world : inv.ListsWorld setting.world)
    (valid : state.Valid setting) (justified : setting.Justifies task)
    (lists : inv.ListsState state) (listed : inv.ListsTask task) (effect : Effect task state next) :
    inv.ListsState next := by
  have noTasks : ∀ task ∈ ([] : List Task), inv.ListsTask task := fun _ mem => by cases mem
  cases effect with
  | use found => exact lists.learn found (.use _) (fun _ mem => .inl mem) noTasks
  | creator found => exact lists.learn found (.creator _) (fun _ mem => .inl mem) noTasks
  | create found => exact lists.learn found (.use _) (fun _ mem => .inl mem) noTasks
  | mark =>
    exact State.listsState_addInhabited
      (State.listsState_markInstances lists fun _ found => world.of_linked valid found) _ _
  | @markJS cls found =>
    have named : cls.name = task.cls := valid.follows.name_eq found
    have admits := Inventory.admits_createJS (world.of_linked valid found) fun parent extends_ =>
      lists.parent_mem fair valid found extends_
    simp only [State.createJS, State.addTasks_eq]
    have asked : inv.ListsState (state.extend cls.superTasks []) :=
      lists.extend (fun task mem => admits.lists task (List.mem_append_left _ mem)) []
    have marked := @State.listsState_markInstances _ cls.name _ asked fun _ found =>
      world.of_linked valid found
    exact marked.extend (fun task mem => admits.lists task (List.mem_append_right _ mem)) []
  | markNative =>
    exact State.listsState_markInstances lists fun _ found => world.of_linked valid found
  | construct =>
    refine lists.extend (fun task mem => ?_) []
    rw [List.mem_singleton.1 mem]
    exact ⟨listed.1, fun _ h => Option.some.inj h ▸ world.defaultConstructor⟩
  | note found _ _ asked =>
    refine lists.learn found (.note _) (fun call mem => ?_) noTasks
    refine (List.mem_append.1 mem).imp_right fun new => ?_
    rw [List.mem_singleton.1 new]
    exact listed.2 _ (by rw [asked]; rfl)
  | dispatch found resident noted =>
    exact (State.lands_noted fair valid found resident _ _).listsState fair world valid lists
      (lists.calls found noted)
  | again found resident noted dispatched =>
    exact (State.lands_notedAgain fair valid found resident dispatched _).listsState fair world
      valid lists (lists.calls found noted)
  | exact found asked =>
    exact (State.lands_exact fair valid found justified asked _).listsState fair world valid lists
      (listed.2 _ (by rw [asked]; rfl))
  | direct found _ asked =>
    exact (State.lands_callDirect fair valid found _ _).listsState fair world valid lists
      (listed.2 _ (by rw [asked]; rfl))
  | enter found =>
    have owned := lists.table (State.class?_eq_some.1 found)
    rw [← valid.follows.name_eq found] at owned
    exact lists.extend
      (Inventory.admits_entryTasks (world.of_linked valid found) owned world.classInit).lists []
  | report => exact lists.extend noTasks _
  | await new =>
    have parked : inv.ListsState (state.setStatus task.cls (.awaited [task])) :=
      lists.setStatus listed.1 rfl fun due mem => by
        rw [List.mem_singleton.1 mem]
        exact ⟨rfl, listed⟩
    exact parked.requeue rfl (List.Subset.refl _)
  | park status | parkLoaded status =>
    refine lists.setStatus listed.1 rfl fun due mem => ?_
    rcases List.mem_append.1 mem with mem | mem
    · exact lists.parked status mem
    · rw [List.mem_singleton.1 mem]
      exact ⟨rfl, listed⟩

/-- Linking brings up the methods of summaries and the parents that they name. -/
theorem Linking.listsState (world : inv.ListsWorld setting.world) (valid : state.Valid setting)
    (lists : inv.ListsState state) (linking : Linking setting state next) :
    inv.ListsState next := by
  cases linking with
  | settle step =>
    cases step with
    | absent status =>
      refine lists.revise (lists.table status) (fun {key entry} has => ?_)
        (fun _ mem => by cases mem) (fun task mem => (lists.parked status mem).2) []
      rw [ClassRecord.method?, ClassRecord.absent, Std.ExtTreeMap.getElem?_empty] at has
      cases has
    | @link name summary parked parents status =>
      have listed := world.summaries (valid.loaded status).symm
      have methods : ∀ {key entry}, (summary.linkedAs name parents).method? key = some entry →
          key.name ∈ inv.methods := by
        intro key entry has
        obtain ⟨_, known, method, mem, rfl, _⟩ :=
          @ClassRecord.exists_declared (summary.linkedAs name parents) _ _ has
        cases known
        exact listed.methods method mem
      exact lists.revise (lists.table status) methods (fun _ mem => by cases mem)
        (fun task mem => (lists.parked status mem).2) _
    | fail status => exact lists.setStatus (lists.table status) rfl fun _ mem => by cases mem
    | @cycle first rest _ loaded =>
      have same := State.class?_failCycle first loaded
      refine ⟨fun {name status} h => ?_, fun {name status task} h due => ?_, fun {task} mem => ?_,
        fun found => lists.methods (same ▸ found), fun found => lists.calls (same ▸ found)⟩
      · rcases State.status_of_failCycle h with ⟨mem, _⟩ | h
        · obtain ⟨_, _, before⟩ := loaded name mem
          exact lists.table before
        · exact lists.table h
      · rcases State.status_of_failCycle h with ⟨_, rfl⟩ | h
        · cases due
        · exact lists.parked h due
      · rw [State.failCycle_eq] at mem
        exact lists.work mem
  | @request child parent declares new =>
    have listed : parent ∈ inv.classes := by
      unfold State.openParents at declares
      split at declares
      · rename_i summary _ status
        exact (world.summaries (valid.loaded status).symm).parents parent declares
      · cases declares
    have awaited : inv.ListsState (state.setStatus parent (.awaited [])) :=
      lists.setStatus listed rfl fun _ mem => by cases mem
    exact awaited.requeue rfl (List.Subset.refl _)
  | queue => exact lists.requeue rfl (List.Subset.refl _)

/-- A class that is taken in keeps the tasks that are parked with it. -/
theorem Inventory.ListsState.receive (lists : inv.ListsState state) (mem : name ∈ inv.classes)
    (unseen : ∀ status, state.status? name = some status → ∃ parked, status = .awaited parked)
    (summary : Option ClassSummary) : inv.ListsState (state.receive name summary) := by
  obtain ⟨parked, same, before⟩ := State.receive_of_unseen unseen summary
  have taken : inv.ListsState (state.setStatus name (.loaded summary parked)) := by
    refine lists.setStatus mem rfl fun task mem => ?_
    obtain ⟨_, h, waits⟩ := before task mem
    exact lists.parked h waits
  rw [same]
  exact taken.requeue rfl (List.Subset.refl _)

theorem Inventory.listsState_blank (inv : Inventory) (allow : Bool) :
    inv.ListsState { allowForwarders := allow } where
  table h := by rw [State.status?_blank] at h; cases h
  parked h := by rw [State.status?_blank] at h; cases h
  work mem := by cases mem
  methods found := by rw [State.class?_blank] at found; cases found
  calls found := by rw [State.class?_blank] at found; cases found

section

variable (fair : setting.IsFair) (full : ∀ fact, setting.facts fact)

include fair full

theorem Effects.listsState (world : inv.ListsWorld setting.world) (valid : state.Valid setting)
    (justified : setting.Justifies task) (lists : inv.ListsState state)
    (listed : inv.ListsTask task) (effects : Effects task state next) : inv.ListsState next := by
  induction effects with
  | refl => exact lists
  | tail early effect ih =>
    have valid' := Changes.valid fair (Effects.changes fair full valid justified early) valid
    exact effect.listsState fair world valid' justified ih listed

/-- A turn of a run brings up nothing but what is listed. -/
theorem Turn.listsState (known : inv.ListsSetting setting) (valid : state.Valid setting)
    (lists : inv.ListsState state) (turn : Turn setting state next) : inv.ListsState next := by
  cases turn with
  | @perform task rest order work =>
    obtain ⟨valid', consistent, justified⟩ := order.takes work
    have fewer : rest ⊆ state.work := work ▸ List.subset_cons_self ..
    have first : task ∈ state.work := work ▸ List.mem_cons_self
    exact Effects.listsState fair full known.world valid' justified (lists.requeue rfl fewer)
      (lists.work first) (State.effects_perform fair full valid' consistent justified)
  | link linking => exact linking.listsState known.world valid lists
  | handOver => exact lists.requeue rfl (List.Subset.refl _)
  | receive awaited =>
    exact lists.receive (lists.table awaited)
      (fun status h => ⟨_, Option.some.inj (h.symm.trans awaited)⟩) _
  | root blank =>
    refine lists.receive known.world.object (fun status h => ?_) _
    rw [blank, State.status?_blank] at h
    cases h
  | ask =>
    rw [State.addTasks_eq]
    exact lists.extend known.roots []

/-- A run meets no names but those that are listed. -/
theorem Turns.listsState (known : inv.ListsSetting setting)
    (turns : Turns setting { allowForwarders := setting.allow } state) : inv.ListsState state := by
  induction turns with
  | refl => exact inv.listsState_blank _
  | tail early turn ih =>
    exact turn.listsState fair full known (Turns.valid fair early (State.valid_empty setting)) ih

end

end ClassLinker
