import ClassLinker.Proofs.Runs

/-!
# What holds in the end

Where nothing is left to do, no class is awaited or loaded any more, so every task has been done
unless its class has failed (`State.InOrder.settles`), and whatever the roots, the reachable methods
and the instances demand is met (`State.InOrder.meets` and what follows it).

The result of an analysis is read off such a state: `analyze_cases`.
-/

namespace ClassLinker

variable {setting : Setting} {state : State}
variable {name other : ClassName} {cls record : ClassRecord} {task : Task}

namespace State

/-- A linked class is as it was when it was linked, apart from what has been found out since. -/
theorem Valid.fresh_eq_of_linked (valid : state.Valid setting)
    (linked : setting.world.classes name = some cls) (found : state.class? name = some record) :
    record.fresh = cls :=
  Option.some.inj ((valid.follows.classes_eq found).symm.trans linked)

/-- Where nothing is left to do, every task has been done, unless its class has failed. -/
theorem InOrder.settles (order : state.InOrder setting) (settled : state.isSettled = true)
    (covers : state.Covers task) : state.Settles task ∨ state.status? task.cls = some .failed := by
  obtain ⟨work, wanted⟩ : state.work = [] ∧ state.wanted = [] := by
    simpa [isSettled] using settled
  rcases covers with (mem | ⟨status, h, waits⟩) | settles
  · rw [work] at mem; cases mem
  · cases status with
    | awaited parked =>
      have mem := order.queued.wanted.2 ⟨parked, h⟩
      rw [wanted] at mem; cases mem
    | loaded summary parked => exact absurd wanted (order.queued.waits (isLoaded_of_status h))
    | linked | failed =>
      rcases waits with mem | failed
      · cases mem
      · rw [failed] at h; exact .inr h
  · exact .inl settles

/-- Where nothing is left to do, the demand of a task that is covered is met. -/
theorem InOrder.meets (order : state.InOrder setting) (settled : state.isSettled = true)
    {demand : Demand} (covers : state.Covers task) (action : task.action = .fulfil demand)
    (linked : setting.world.classes task.cls = some cls) : state.Meets task.cls demand := by
  rcases order.settles settled covers with ⟨record, found, _, settles⟩ | failed
  · refine ⟨record, found, fun present => ?_⟩
    have done := settles present
    rwa [action] at done
  · exact absurd (Universe.classes_eq_some.1 linked) (order.valid.failed failed cls)

/-- So is whatever the code behind a task demands, if the task waits for nothing. -/
theorem InOrder.meets_due (order : state.InOrder setting) (settled : state.isSettled = true)
    {demand : Demand} (due : state.CoversDue task) (action : task.action = .fulfil demand)
    (linked : setting.world.classes task.cls = some cls) : state.Meets task.cls demand := by
  rcases due with awaits | ⟨other, record, action', found, _, fulfils⟩
  · exact order.meets settled (.inl awaits) action linked
  · rw [action] at action'
    cases action'
    exact ⟨record, found, fulfils⟩

/-! ### What is owed -/

/-- Instances of a class owe what its exported members demand. -/
theorem mem_instanceDues_of_member {summary : ClassSummary} {member : Demands} {demand : Demand}
    (known : cls.summary = some summary) (mem : member ∈ summary.exportedMembers)
    (demands : (other, demand) ∈ member.toList) :
    { cls := other, action := .fulfil demand, cause := .exports } ∈ cls.instanceDues := by
  refine List.mem_append_right _ ?_
  simp only [exportedMemberTasks, known]
  exact List.mem_flatMap.2 ⟨member, mem, Demands.mem_tasks.2 ⟨demand, demands, rfl⟩⟩

/-- They owe the type data of the classes in its fields. -/
theorem mem_instanceDues_of_field {summary : ClassSummary} (known : cls.summary = some summary)
    (mem : other ∈ summary.fieldClasses) :
    { cls := other, action := .fulfil (.use .typeData), cause := .cls cls.name } ∈
      cls.instanceDues := by
  refine List.mem_append_left _ (List.mem_append_right _ ?_)
  simp only [instanceTasks, known]
  exact List.mem_append_right _ (List.mem_map.2 ⟨other, mem, rfl⟩)

/-- Those of a JavaScript class owe instances of the super class. -/
theorem mem_instanceDues_of_superClass (kind : cls.kind.isDefinedJS = true)
    (extends_ : cls.superClass = some other) :
    { cls := other, action := .fulfil (.use .instances), cause := .cls cls.name } ∈
      cls.instanceDues := by
  refine List.mem_append_left _ (List.mem_append_left _ ?_)
  rw [if_pos kind]
  exact List.mem_map.2 ⟨other, Option.mem_toList.2 extends_, rfl⟩

/-- Entering a class runs its static initializer. -/
theorem mem_entryTasks_of_initializer {summary : ClassSummary} (known : cls.summary = some summary)
    (initializes : summary.initializesStatics = true) :
    { cls := cls.name, action := .fulfil (.callDirect ⟨.staticConstructor, .classInit⟩),
      cause := .component "static initializers" } ∈ entryTasks cls := by
  simp only [entryTasks, known, initializes, if_true]
  exact List.mem_cons_self

/-- It asks for what the exports of the class demand. -/
theorem mem_entryTasks_of_export {summary : ClassSummary} {item : ExportSummary} {demand : Demand}
    (known : cls.summary = some summary) (mem : item ∈ summary.exports)
    (demands : (other, demand) ∈ item.demands.toList) :
    { cls := other, action := .fulfil demand, cause := .exports } ∈ entryTasks cls := by
  simp only [entryTasks, known]
  exact List.mem_append_right _ (List.mem_flatMap.2 ⟨item, mem,
    Demands.mem_tasks.2 ⟨demand, demands, rfl⟩⟩)

/-- What is demanded as a consequence of what is known is met. -/
theorem InOrder.meets_owed (order : state.InOrder setting) (settled : state.isSettled = true)
    {demand : Demand} (owes : state.Owes task) (action : task.action = .fulfil demand)
    (linked : setting.world.classes task.cls = some cls) : state.Meets task.cls demand :=
  order.meets settled (order.accounted (.inr owes)) action linked

/-- What runs or is exported of an entry point is met. -/
theorem InOrder.meets_entry (order : state.InOrder setting) (settled : state.isSettled = true)
    {demand : Demand} (entry : name ∈ setting.entryPoints)
    (found : setting.world.classes name = some record) (present : record.isPresent = true)
    (mem : task ∈ entryTasks record) (action : task.action = .fulfil demand)
    (linked : setting.world.classes task.cls = some cls) : state.Meets task.cls demand := by
  have root := Setting.enter_mem_rootTasks entry
  rcases order.settles settled (order.accounted (.inl root)) with
    ⟨known, found', _, settles⟩ | failed
  · obtain rfl := order.valid.fresh_eq_of_linked found found'
    exact order.meets_due settled (settles present task mem) action linked
  · exact absurd (Universe.classes_eq_some.1 found) (order.valid.failed failed record)

/-- A reachable method with a body of its own owes what it demands. -/
theorem Valid.owes_body (valid : state.Valid setting) {id : MethodId} {entry : MethodRecord}
    (found : state.class? id.owner = some cls) (has : cls.method? id.key = some entry)
    (reached : entry.isReached = true) (present : entry.isPresent = true)
    (forwarder : entry.forwarder = none) {summary : ClassSummary} {declared : MethodSummary}
    (known : cls.summary = some summary)
    (declares : summary.method? id.space id.name = some declared) {demand : Demand}
    (demands : (other, demand) ∈ declared.demands.toList) :
    state.Owes { cls := other, action := .fulfil demand, cause := .method id } := by
  refine .body found has reached ?_
  have id_eq : entry.id = id := by
    have name_eq : cls.name = id.owner := valid.follows.name_eq found
    rw [((valid.classes found).entries has).id_eq]
    show MethodId.mk cls.name id.space id.name = id
    rw [name_eq]
  simp only [methodTasks, forwarder, present, if_true, known, id_eq, Option.bind_some, declares]
  exact Demands.mem_tasks.2 ⟨demand, demands, rfl⟩

/-! ### Without errors -/

/-- The class exists, and the demand on it is fulfilled. -/
def Provides (state : State) (name : ClassName) (demand : Demand) : Prop :=
  ∃ cls, state.class? name = some cls ∧ cls.isPresent = true ∧ state.Fulfils cls demand

theorem Spares.isPresent (spares : state.Spares cls task) (clean : state.errors = [])
    (required : task.isOptional = false) : cls.isPresent = true := by
  rcases spares with present | optional | reported
  · exact present
  · rw [required] at optional; cases optional
  · exact absurd clean reported

/-- Where nothing is left to do and there are no errors, every task has been done for a class that
exists, unless it is optional. -/
theorem InOrder.exists_of_covers (order : state.InOrder setting) (settled : state.isSettled = true)
    (clean : state.errors = []) (covers : state.Covers task) (required : task.isOptional = false) :
    ∃ cls, state.class? task.cls = some cls ∧ cls.isPresent = true ∧
      match task.action with
      | .fulfil demand => state.Fulfils cls demand
      | .callExact method => state.Dispatched task.cls method
      | .enter => ∀ due ∈ entryTasks cls, state.CoversDue due := by
  rcases order.settles settled covers with ⟨cls, found, spares, settles⟩ | failed
  · have present := spares.isPresent clean required
    exact ⟨cls, found, present, settles present⟩
  · exact absurd clean (order.valid.reported failed)

theorem InOrder.provides (order : state.InOrder setting) (settled : state.isSettled = true)
    (clean : state.errors = []) {demand : Demand} (covers : state.Covers task)
    (required : task.isOptional = false) (action : task.action = .fulfil demand) :
    state.Provides task.cls demand := by
  obtain ⟨cls, found, present, done⟩ := order.exists_of_covers settled clean covers required
  rw [action] at done
  exact ⟨cls, found, present, done⟩

/-- What runs or is exported of an entry point has all that it demands. -/
theorem InOrder.provides_entry (order : state.InOrder setting) (settled : state.isSettled = true)
    (clean : state.errors = []) {demand : Demand} (entry : name ∈ setting.entryPoints)
    (found : state.class? name = some cls) (mem : task ∈ entryTasks cls)
    (required : task.isOptional = false) (action : task.action = .fulfil demand) :
    state.Provides task.cls demand := by
  have root := Setting.enter_mem_rootTasks entry
  obtain ⟨record, found', _, done⟩ :=
    order.exists_of_covers settled clean (order.accounted (.inl root)) rfl
  obtain rfl := Option.some.inj (found.symm.trans found')
  rcases done task mem with awaits | ⟨other, linked, action', found', spares, fulfils⟩
  · exact order.provides settled clean (.inl awaits) required action
  · rw [action] at action'
    cases action'
    have present := spares.isPresent clean required
    exact ⟨linked, found', present, fulfils present⟩

/-! ### Results -/

/-- The classes of a result are the linked ones. -/
theorem class?_result (state : State) (name : ClassName) :
    state.result.class? name = state.class? name := by
  have table : ∀ (names : List String) (state : State),
      (names.foldl (fun state name => state.report (.conflictingExports name (state.ownersOf name)))
        state).table = state.table := by
    intro names
    induction names with
    | nil => exact fun _ => rfl
    | cons first rest ih => exact fun state => ih _
  show (state.checkExports.table.filterMap fun _ status => status.record?)[name]? = _
  rw [Std.ExtTreeMap.getElem?_filterMap', checkExports, table]
  rfl

theorem method?_result (state : State) (id : MethodId) :
    state.result.method? id = state.method? id := by
  rw [Analysis.method?, class?_result, method?]

/-- All errors are among those of the result. -/
theorem mem_errors_result {error : Diagnostic} (mem : error ∈ state.errors) :
    error ∈ state.result.errors := by
  have kept : ∀ (names : List String) (state : State), error ∈ state.errors →
      error ∈ (names.foldl (fun state name =>
        state.report (.conflictingExports name (state.ownersOf name))) state).errors := by
    intro names
    induction names with
    | nil => exact fun _ mem => mem
    | cons first rest ih => exact fun state mem => ih _ (List.mem_append_left _ mem)
  exact List.mem_eraseDups.2 (kept _ state mem)

end State

/-! ### Analyses -/

namespace Requirement

mutual

/-- Nothing is to do for a requirement that is empty. -/
theorem tasks_of_isEmpty {isOptional : Bool} :
    ∀ {requirement : Requirement}, requirement.isEmpty = true →
      requirement.tasks isOptional = []
  | .optional _, empty => @tasks_of_isEmpty true _ empty
  | .every _, empty => tasksOfAll_of_allEmpty empty
  | .nothing, _ => rfl

theorem tasksOfAll_of_allEmpty {isOptional : Bool} :
    ∀ {all : List Requirement}, allEmpty all = true → tasksOfAll isOptional all = []
  | [], _ => rfl
  | _ :: _, empty => by
    obtain ⟨first, rest⟩ := Bool.and_eq_true_iff.1 empty
    rw [tasksOfAll, tasks_of_isEmpty first, tasksOfAll_of_allEmpty rest, List.append_nil]

end

end Requirement

/-- What the analysis of the classes of a loader is about. -/
def Loader.settingFor (loader : Loader) (allowForwarders : Bool) (requirement : Requirement)
    (facts : Fact → Prop) : Setting where
  world := loader.knows
  allow := allowForwarders
  requirement := requirement
  entryPoints := loader.entryPoints
  facts := facts

/-- All facts together ask for nothing but a root class. -/
theorem Loader.isFair_settingFor {loader : Loader} {allowForwarders : Bool}
    {requirement : Requirement} (rooted : loader.knows.IsRooted) :
    (loader.settingFor allowForwarders requirement fun _ => True).IsFair :=
  ⟨rooted, closed_true _, .inl fun _ => trivial⟩

/-- An analysis without error has nothing to do, or is refused, or is the result of a run. -/
theorem analyze_eq_result {allowForwarders : Bool} {requirement : Requirement}
    {loader after : Loader} {analysis : Analysis}
    (ends : analyze allowForwarders requirement loader = (.ok analysis, after)) :
    (loader.Loads after ∧ requirement.isEmpty = true ∧ loader.entryPoints = [] ∧
        analysis = {}) ∨
      (loader.Loads after ∧ ¬ loader.knows.IsRooted ∧ analysis.classes = ∅) ∨
      ∃ root steps later state, loader.knows .object = some root ∧ root.isRoot = true ∧
        loader.Loads later ∧ (State.start allowForwarders root requirement
          loader.entryPoints).settle steps later = (.ok state, after) ∧
        analysis = state.result := by
  unfold analyze at ends
  simp only at ends
  split at ends
  · rename_i idle
    obtain ⟨empty, entries⟩ := Bool.and_eq_true_iff.1 idle
    cases ends
    exact .inl ⟨.refl, empty, List.isEmpty_iff.1 entries, rfl⟩
  · have loads : loader.Load _ := .summary .object
    have known : ∀ {summary}, (loader.loadSummary .object).1 = .ok summary →
        summary = loader.knows .object := Loader.knows_of_loadSummary
    generalize loader.loadSummary .object = loaded at ends loads known
    obtain ⟨_ | _ | root, later⟩ := loaded
    · cases ends
    · cases ends
      refine .inr (.inl ⟨.single loads, ?_, rfl⟩)
      rintro ⟨root, h, _⟩
      rw [← known rfl] at h
      cases h
    · have is_known : loader.knows .object = some root := (known rfl).symm
      simp only at ends
      split at ends
      · rename_i improper
        cases ends
        refine .inr (.inl ⟨.single loads, ?_, rfl⟩)
        rintro ⟨other, h, isRoot⟩
        obtain rfl := Option.some.inj (is_known.symm.trans h)
        rw [isRoot] at improper
        cases improper
      · rename_i proper
        have isRoot : root.isRoot = true := by simpa using proper
        generalize settles : (State.start allowForwarders root requirement
          loader.entryPoints).settle (stepBudget later requirement) later = settled at ends
        obtain ⟨_ | final, last⟩ := settled
        · cases ends
        · cases ends
          exact .inr (.inr ⟨root, _, later, final, is_known, isRoot, .single loads, settles, rfl⟩)

/-- In the third case nothing is left to do in the end. -/
theorem analyze_cases {allowForwarders : Bool} {requirement : Requirement} {loader after : Loader}
    {analysis : Analysis}
    (ends : analyze allowForwarders requirement loader = (.ok analysis, after)) :
    loader.Loads after ∧
    ((requirement.tasks false = [] ∧ loader.entryPoints = [] ∧ analysis = {}) ∨
      (¬ loader.knows.IsRooted ∧ analysis.classes = ∅) ∨
      (loader.knows.IsRooted ∧
        ∀ facts, (loader.settingFor allowForwarders requirement facts).IsFair → ∃ state : State,
          state.InOrder (loader.settingFor allowForwarders requirement facts) ∧
            state.isSettled = true ∧ analysis = state.result)) := by
  rcases analyze_eq_result ends with ⟨loads, empty, idle⟩ | ⟨loads, refused⟩ |
    ⟨root, steps, later, final, known, isRoot, loads, settles, rfl⟩
  · exact ⟨loads, .inl ⟨Requirement.tasks_of_isEmpty empty, idle⟩⟩
  · exact ⟨loads, .inr (.inl refused)⟩
  · have rooted : loader.knows.IsRooted := ⟨root, known, isRoot⟩
    have run : ∀ facts, (loader.settingFor allowForwarders requirement facts).IsFair → _ :=
      fun facts fair => State.inOrder_settle fair _ (Loader.Loads.knows loads).symm
        (State.inOrder_start fair known isRoot) settles
    obtain ⟨_, _, more⟩ := run _ (Loader.isFair_settingFor rooted)
    refine ⟨loads.trans more, .inr (.inr ⟨rooted, fun facts fair => ?_⟩)⟩
    obtain ⟨order, done, _⟩ := run facts fair
    exact ⟨final, order, done, rfl⟩

/-- Without a proper root class an analysis has errors, unless it has nothing to do. -/
theorem idle_of_unrooted {allowForwarders : Bool} {requirement : Requirement}
    {loader after : Loader} {analysis : Analysis}
    (ends : analyze allowForwarders requirement loader = (.ok analysis, after))
    (unrooted : ¬ loader.knows.IsRooted) (clean : analysis.errors = []) :
    loader.entryPoints = [] ∧ requirement.isEmpty = true := by
  rcases idle : requirement.isEmpty && loader.entryPoints.isEmpty with _ | _
  · have known : ∀ {summary}, (loader.loadSummary .object).1 = .ok summary →
        summary = loader.knows .object := Loader.knows_of_loadSummary
    unfold analyze at ends
    simp only [idle, Bool.false_eq_true, if_false] at ends
    generalize loader.loadSummary .object = loaded at ends known
    obtain ⟨_ | _ | root, later⟩ := loaded
    · cases ends
    · cases ends
      cases clean
    · by_cases proper : root.isRoot = true
      · exact absurd ⟨root, (known rfl).symm, proper⟩ unrooted
      · simp only [proper, Bool.not_false, if_true] at ends
        cases ends
        cases clean
  · obtain ⟨empty, entries⟩ := Bool.and_eq_true_iff.1 idle
    exact ⟨List.isEmpty_iff.1 entries, empty⟩

end ClassLinker
