import ClassLinker.Proofs.Costs

/-!
# The costs of tasks

No operation on linked classes raises what is left to do. What it brings up is paid for by something
that has not happened before: the first call of a method (`State.Lands.cost_le`), the first
instances of a class or of one below it (`State.cost_markInstances_le`), instances of the class
itself (`State.cost_create_le`), and the first use of a module (`State.cost_readModule_le`).

So doing a task costs less than the task itself (`State.cost_perform_lt`).
-/

namespace ClassLinker

variable {setting : Setting} {state next : State}
variable {name : ClassName} {cls : ClassRecord} {task : Task} {key : MethodKey} {cause : Cause}
variable {method : MethodName} {inv : Inventory}

/-! ### Instances and uses -/

namespace State

/-- What instances bring up is paid for by there being none before. -/
theorem cost_markInstances_le (lists : inv.ListsState state)
    (known : ∀ cls, state.class? name = some cls →
      ∀ summary, cls.summary = some summary → inv.ListsSummary summary) :
    inv.cost (state.markInstances name) ≤ inv.cost state := by
  rcases state.markInstances_cases name with same | ⟨cls, found, new, same⟩
  · rw [same]
  · have status := class?_eq_some.1 found
    rw [same]
    refine Inventory.cost_revise_le (lists.table status) [] ?_
    have admits := (Inventory.admits_instanceTasks (known cls found)).cost_le
      (state.setClass name { cls with hasInstances := true })
    have pays : inv.classCost (some (.linked { cls with hasInstances := true })) + inv.unit =
        inv.classCost (some (.linked cls)) := by
      refine Inventory.classCost_linked_add rfl ?_
      simp only [Inventory.stageCost, new, Inventory.costUnless_true, Inventory.costUnless_false]
      omega
    rw [status, ← pays]
    exact Nat.add_le_add_left admits _

theorem cost_addInhabited_le (lists : inv.ListsState state) (name ancestor : ClassName) :
    inv.cost (state.addInhabited name ancestor) ≤ inv.cost state := by
  rcases state.addInhabited_cases name ancestor with same | ⟨cls, found, same⟩
  · rw [same]
  · rw [same]
    exact Inventory.cost_learn_le (lists.table (class?_eq_some.1 found)) found (.inhabit name)

/-- A flag of a class that is set for the first time pays a unit. -/
theorem cost_addUse_le (mem : name ∈ inv.classes) (found : state.class? name = some cls)
    {use : Use} {creators : List Cause} (new : use = .instances ∧ cls.uses.instances = false ∨
      use = .module ∧ cls.uses.module = false) :
    inv.cost (state.revise name ({ cls with creators }.addUse use) [] []) + inv.unit ≤
      inv.cost state := by
  have set : inv.cost (state.setClass name ({ cls with creators }.addUse use)) +
      inv.classCost (state.status? name) ≤
        inv.cost state + inv.classCost (some (.linked ({ cls with creators }.addUse use))) :=
    Inventory.cost_setStatus_le mem fun _ => rfl
  have pays : inv.classCost (some (.linked ({ cls with creators }.addUse use))) + inv.unit =
      inv.classCost (some (.linked cls)) := by
    refine Inventory.classCost_linked_add rfl ?_
    rcases new with ⟨rfl, unused⟩ | ⟨rfl, unused⟩ <;>
      · simp only [Inventory.stageCost, ClassRecord.addUse, Uses.insert, unused,
          Inventory.costUnless_true, Inventory.costUnless_false]
        omega
  rw [class?_eq_some.1 found] at set
  rw [revise_nil]
  omega

/-- A task that is parked makes its class more expensive, but by less than it costs itself. -/
theorem cost_park_lt (listed : inv.ListsTask task) (unsettled : state.isSettledAt task.cls = false)
    {status : Status} (parks : inv.classCost (some status) ≤
      inv.classCost (state.status? task.cls) + 1 + inv.entryFee task) :
    inv.cost (state.setStatus task.cls status) < inv.cost state + inv.taskCost state task := by
  have set : inv.cost (state.setStatus task.cls status) + inv.classCost (state.status? task.cls) ≤
      inv.cost state + inv.classCost (some status) :=
    Inventory.cost_setStatus_le listed.1 fun settled =>
      absurd (unsettled.symm.trans settled) (by simp)
  have fee : inv.taskCost state task = 2 + inv.entryFee task := by
    simp [Inventory.taskCost, unsettled]
  omega

end State

section

variable (fair : setting.IsFair) (world : inv.ListsWorld setting.world)
  (valid : state.Valid setting) (lists : inv.ListsState state)

include fair world valid lists

/-- A call does not raise the cost. -/
theorem State.Lands.cost_le (named : key.name ∈ inv.methods)
    (lands : state.Lands name key cause next) : inv.cost next ≤ inv.cost state := by
  cases lands with
  | @intro owner cls entry errors found landing =>
    have finds := landing.finds found
    have tasks : ∀ state, ((cls.callTasks entry).map (inv.taskCost state)).sum ≤
        inv.costUnless entry.isReached := by
      intro before
      have admits := finds.admits fair world valid lists found named
      cases reached : entry.isReached with
      | true => simp [ClassRecord.callTasks, reached]
      | false => exact admits.cost_le before
    have paid := inv.classCost_withCall named finds cause
    refine inv.cost_revise_le (lists.table (State.class?_eq_some.1 found)) errors ?_
    rw [State.class?_eq_some.1 found]
    exact Nat.le_trans (Nat.add_le_add_left (tasks _) _) paid

/-- What spreads to other classes does not raise the cost. -/
theorem Spread.cost_le (spread : Spread task state next) : inv.cost next ≤ inv.cost state := by
  cases spread with
  | @mark cls ancestor =>
    have known : ∀ cls, state.class? ancestor = some cls →
        ∀ summary, cls.summary = some summary → inv.ListsSummary summary :=
      fun _ found => world.of_linked valid found
    exact Nat.le_trans
      (State.cost_addInhabited_le (State.listsState_markInstances lists known) _ _)
      (State.cost_markInstances_le lists known)
  | dispatch found resident noted =>
    exact (State.lands_noted fair valid found resident _ _).cost_le fair world valid lists
      (lists.calls found noted)
  | again found resident noted dispatched =>
    exact (State.lands_notedAgain fair valid found resident dispatched _).cost_le fair world valid
      lists (lists.calls found noted)

/-- Instances of a JavaScript class cost a unit. -/
theorem State.cost_createJS_le (found : state.class? name = some cls) {source : ClassRecord}
    (same_summary : source.summary = cls.summary)
    (same_super : source.superClass = cls.superClass) :
    inv.cost (state.createJS source) ≤ inv.cost state + inv.unit := by
  have admits : inv.Admits (source.superTasks ++ State.exportedMemberTasks source) := by
    refine Inventory.admits_createJS (fun summary known => ?_) fun parent extends_ => ?_
    · exact world.of_linked valid found summary (same_summary ▸ known)
    · exact lists.parent_mem fair valid found (same_super ▸ extends_)
  have supers : ∀ task ∈ source.superTasks, task.action ≠ .enter := fun task mem =>
    admits.asks task (List.mem_append_left _ mem)
  have members : ∀ task ∈ State.exportedMemberTasks source, task.action ≠ .enter :=
    fun task mem => admits.asks task (List.mem_append_right _ mem)
  have asked : inv.ListsState (state.extend source.superTasks []) :=
    lists.extend (fun task mem => admits.lists task (List.mem_append_left _ mem)) []
  have length := admits.length_le
  rw [List.length_append] at length
  simp only [State.createJS, State.addTasks_eq]
  have first := @Inventory.cost_extend_le state _ inv supers []
  have second := @State.cost_markInstances_le _ source.name _ asked fun _ found =>
    world.of_linked valid found
  have third := @Inventory.cost_extend_le
    ((state.extend source.superTasks []).markInstances source.name) _ inv members []
  unfold Inventory.unit
  simp only [ClassRecord.superTasks] at first second third length
  omega

end

section

variable (fair : setting.IsFair) (full : ∀ fact, setting.facts fact)
  (world : inv.ListsWorld setting.world) (valid : state.Valid setting)
  (justified : setting.Justifies task) (lists : inv.ListsState state)
  (listed : inv.ListsTask task)

include fair full world valid justified lists listed

theorem Spreads.cost_le (spreads : Spreads task state next) :
    inv.cost next ≤ inv.cost state := by
  induction spreads with
  | refl => exact Nat.le_refl _
  | tail early spread ih =>
    have effects := Spreads.effects early
    have valid' := Changes.valid fair (Effects.changes fair full valid justified effects) valid
    have lists' := Effects.listsState fair full world valid justified lists listed effects
    exact Nat.le_trans (spread.cost_le fair world valid' lists') ih

namespace State

variable (found : state.class? task.cls = some cls) (present : cls.isPresent = true)

include found present

/-- Creating instances is paid for by there being none of the class itself before. -/
theorem cost_create_le (asked : task.action = .fulfil (.use .instances) ∨
      task.action = .fulfil (.use .module) ∧ cls.uses.module = true) :
    inv.cost (state.create task.cls task.cause) ≤ inv.cost state := by
  have mem := lists.table (class?_eq_some.1 found)
  by_cases known : (cls.uses.instances || !cls.kind.isInstantiable) = true
  · rw [create_of_idle found known]
    exact Inventory.cost_learn_le mem found (.creator _)
  · have fresh : cls.uses.instances = false ∧ cls.kind.isInstantiable = true := by
      simpa using known
    let source : ClassRecord := { cls with creators := recordOnce cls.creators task.cause }
    let told := state.revise task.cls (source.addUse .instances) [] []
    have tells : Effects task state told := effects_addInstances found present asked fresh.2
    have validT := Changes.valid fair (Effects.changes fair full valid justified tells) valid
    have listsT := Effects.listsState fair full world valid justified lists listed tells
    have foundT : told.class? task.cls = some (source.addUse .instances) := by
      rw [class?_revise, if_pos rfl]
    have paid : inv.cost told + inv.unit ≤ inv.cost state :=
      cost_addUse_le mem found (.inl ⟨rfl, fresh.1⟩)
    rw [create_of_fresh found fresh.1 fresh.2]
    show inv.cost (if cls.kind.isOrdinary then told.createOrdinary source
      else if cls.kind.isDefinedJS then told.createJS source
      else told.markInstances task.cls) ≤ _
    refine Nat.le_trans ?_ paid
    by_cases ordinary : cls.kind.isOrdinary = true
    · rw [if_pos ordinary]
      have spreads := spreads_createOrdinary fair full validT justified foundT ordinary rfl
        source (show cls.name = task.cls from valid.follows.name_eq found) rfl
      have free := Spreads.cost_le fair full world validT justified listsT listed spreads
      exact Nat.le_trans free (Nat.le_add_right ..)
    · rw [if_neg ordinary]
      split
      · exact cost_createJS_le fair world validT listsT foundT rfl rfl
      · have free := @cost_markInstances_le told task.cls inv listsT fun _ found =>
          world.of_linked validT found
        exact Nat.le_trans free (Nat.le_add_right ..)

/-- Reading a module is paid for by its not having been read before. -/
theorem cost_readModule_le (asked : task.action = .fulfil (.use .module)) :
    inv.cost (state.readModule task.cls task.cause) ≤ inv.cost state := by
  have mem := lists.table (class?_eq_some.1 found)
  cases kind : cls.kind.isModule with
  | false =>
    rw [readModule_of_notModule found kind, Inventory.cost_extend]
    exact Nat.le_refl _
  | true =>
    cases read : cls.uses.module with
    | true => rw [readModule_of_read found kind read]
    | false =>
      let told := state.revise task.cls (cls.addUse .module) [] []
      have tell : Effect task state told :=
        .use found present asked (fun h => by cases h) fun _ => kind
      have validT := Changes.valid fair (tell.changes fair full valid justified) valid
      have listsT := tell.listsState fair world valid justified lists listed
      have foundT : told.class? task.cls = some (cls.addUse .module) := by
        rw [class?_revise, if_pos rfl]
      have paid : inv.cost told + inv.unit ≤ inv.cost state :=
        cost_addUse_le mem found (.inr ⟨rfl, read⟩)
      have creates : inv.cost (told.create task.cls task.cause) ≤ inv.cost told :=
        cost_create_le fair full world validT justified listsT listed foundT present
          (.inr ⟨asked, rfl⟩)
      rw [readModule_of_fresh found kind read]
      show inv.cost (if cls.kind.isOrdinary then
        (told.create task.cls task.cause).extend [constructorTask task.cls task.cause] []
        else told.create task.cls task.cause) ≤ _
      split
      · have runs := @Inventory.cost_extend_le (told.create task.cls task.cause)
          [constructorTask task.cls task.cause] inv (by simp [constructorTask]) []
        have unit_ge : 2 ≤ inv.unit := by
          unfold Inventory.unit
          omega
        rw [List.length_singleton] at runs
        omega
      · omega

theorem cost_callDispatched_le (consistent : state.Consistent)
    (asked : task.action = .fulfil (.call method)) :
    inv.cost (state.callDispatched task.cls method task.cause) ≤ inv.cost state := by
  by_cases idle : (cls.kind.isJS || (method, task.cause) ∈ cls.calls) = true
  · rw [callDispatched_of_idle found idle]
  · obtain ⟨note, spreads⟩ :=
      spreads_callDispatched fair full valid justified found consistent present asked idle
    have validN := Changes.valid fair (note.changes fair full valid justified) valid
    have listsN := note.listsState fair world valid justified lists listed
    exact Nat.le_trans (Spreads.cost_le fair full world validN justified listsN listed spreads)
      (Inventory.cost_learn_le (lists.table (class?_eq_some.1 found)) found (.note _))

/-- Doing a task for a class that exists costs nothing, unless it enters the class. -/
theorem cost_act_le (consistent : state.Consistent) :
    inv.cost (state.act cls task.action task.cause) ≤ inv.cost state + inv.entryFee task := by
  have name_eq := valid.follows.name_eq found
  have mem := lists.table (class?_eq_some.1 found)
  cases action : task.action with
  | fulfil demand =>
    refine Nat.le_trans ?_ (Nat.le_add_right ..)
    cases demand with
    | use use =>
      have plain : inv.cost (state.modifyClass task.cls fun cls => cls.addUse use) ≤
          inv.cost state := by
        have same : (state.modifyClass task.cls fun cls => cls.addUse use) =
            state.revise task.cls (cls.addUse use) [] [] := by
          rw [revise_nil]
          simp only [modifyClass, found]
        rw [same]
        exact Inventory.cost_learn_le mem found (.use use)
      simp only [act, name_eq]
      cases use with
      | instances =>
        exact cost_create_le fair full world valid justified lists listed found present
          (.inl action)
      | module =>
        exact cost_readModule_le fair full world valid justified lists listed found present action
      | tests | typeData | staticFields | privateFields => exact plain
    | call method =>
      simp only [act, name_eq]
      exact cost_callDispatched_le fair full world valid justified lists listed found present
        consistent action
    | callDirect key =>
      simp only [act, name_eq]
      exact (lands_callDirect fair valid found _ _).cost_le fair world valid lists
        (listed.2 _ (by rw [action]; rfl))
  | callExact method =>
    refine Nat.le_trans ?_ (Nat.le_add_right ..)
    simp only [act, name_eq]
    exact (lands_exact fair valid found justified action _).cost_le fair world valid lists
      (listed.2 method (by rw [action]; rfl))
  | enter =>
    have admits := Inventory.admits_entryTasks (world.of_linked valid found) (name_eq ▸ mem)
      world.classInit
    simp only [act, addTasks_eq, Inventory.cost_extend, Inventory.entryFee, action, if_true]
    exact Nat.add_le_add_left (admits.cost_le state) _

omit found present

/-- What a task itself costs is more than what doing it adds to the rest. -/
theorem cost_perform_lt (consistent : state.Consistent) :
    inv.cost (state.perform task) < inv.cost state + inv.taskCost state task := by
  cases h : state.status? task.cls with
  | none =>
    have parks : inv.classCost (some (.awaited [task])) ≤
        inv.classCost (state.status? task.cls) + 1 + inv.entryFee task := by
      simp only [h, Inventory.classCost, Inventory.stageCost, Inventory.parkedCost,
        List.map_cons, List.map_nil, List.sum_cons, List.sum_nil, Option.bind_none,
        Option.bind_some, Status.record?]
      omega
    simp only [perform, h]
    exact cost_park_lt listed (by rw [isSettledAt, h]; rfl) parks
  | some status =>
    cases status with
    | awaited parked =>
      have parks : inv.classCost (some (.awaited (parked ++ [task]))) ≤
          inv.classCost (state.status? task.cls) + 1 + inv.entryFee task := by
        simp only [h, Inventory.classCost, Inventory.stageCost, Inventory.parkedCost,
          List.map_append, List.sum_append, List.map_cons, List.map_nil, List.sum_cons,
          List.sum_nil, Option.bind_some, Status.record?]
        omega
      simp only [perform, h]
      exact cost_park_lt listed (by rw [isSettledAt, h]; rfl) parks
    | loaded summary parked =>
      have parks : inv.classCost (some (.loaded summary (parked ++ [task]))) ≤
          inv.classCost (state.status? task.cls) + 1 + inv.entryFee task := by
        simp only [h, Inventory.classCost, Inventory.stageCost, Inventory.parkedCost,
          List.map_append, List.sum_append, List.map_cons, List.map_nil, List.sum_cons,
          List.sum_nil, Option.bind_some, Status.record?]
        omega
      simp only [perform, h]
      exact cost_park_lt listed (by rw [isSettledAt, h]; rfl) parks
    | failed =>
      simp only [perform, h]
      exact Nat.lt_add_of_pos_right (inv.taskCost_pos state task)
    | linked cls =>
      have settled : state.isSettledAt task.cls = true := by rw [isSettledAt, h]; rfl
      have fee : inv.taskCost state task = 1 + inv.entryFee task := by
        rw [Inventory.taskCost, if_pos settled]
      cases present : cls.isPresent with
      | true =>
        have acts := cost_act_le fair full world valid justified lists listed
          (class?_eq_some.2 h) present consistent
        simp only [perform, h, present, if_true, fee]
        omega
      | false =>
        have idle : inv.cost (state.report (.missingClass task.cls task.cause)) =
            inv.cost state := by
          rw [report_eq, Inventory.cost_extend]
          rfl
        simp only [perform, h, present, Bool.false_eq_true, if_false, fee]
        split <;> omega

end State

end

end ClassLinker
