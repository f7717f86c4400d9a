import ClassLinker.Proofs.CostsOfRuns
import Mathlib.Tactic.GCongr
import Mathlib.Tactic.Ring

/-!
# The step budget

The names that the summaries of a loader mention, together with those in the tasks that a run begins
with, are all that a run over its classes can meet: `Loader.inventory` lists them
(`Loader.listsSetting_inventory`). There are not many more of them than `Loader.weight` says, so in
the beginning a run costs no more than `stepBudget` (`Loader.cost_start_le_stepBudget`). It ends
within as many steps (`exists_ends_start`), and an analysis never runs out of them
(`analyze_ne_outOfSteps`).
-/

namespace ClassLinker

variable {state : State} {name : ClassName} {summary : ClassSummary} {root : ClassSummary}
variable {allow : Bool} {requirement : Requirement} {loader after : Loader}
variable {inv : Inventory} {setting : Setting} {roots : List Task}

/-! ### What is mentioned -/

namespace ClassSummary

/-- The classes that the summary mentions, apart from its own. -/
def mentionedClasses (summary : ClassSummary) : List ClassName :=
  summary.parents ++ summary.fieldClasses ++
    (summary.allDemands.flatMap Demands.toList).map Prod.fst

/-- The methods that the summary declares or demands. -/
def mentionedMethods (summary : ClassSummary) : List MethodName :=
  summary.methods.map MethodSummary.name ++
    (summary.allDemands.flatMap Demands.toList).filterMap fun item => item.2.method?

theorem length_mentionedClasses_le (summary : ClassSummary) :
    summary.mentionedClasses.length ≤ summary.weight := by
  simp only [mentionedClasses, weight, List.length_append, List.length_map]
  omega

theorem length_mentionedMethods_le (summary : ClassSummary) :
    summary.mentionedMethods.length ≤ summary.weight := by
  have fewer : ((summary.allDemands.flatMap Demands.toList).filterMap
      fun item => item.2.method?).length ≤ (summary.allDemands.flatMap Demands.toList).length :=
    List.length_filterMap_le ..
  simp only [mentionedMethods, weight, List.length_append, List.length_map]
  omega

end ClassSummary

theorem Source.mem_summaries {source : Source} (known : source.summary? name = some summary) :
    summary ∈ source.summaries := by
  unfold Source.summary? at known
  cases given : source.givenSummaries[name]? with
  | some other =>
    rw [given] at known
    obtain rfl := Option.some.inj known
    have mem := Std.ExtTreeMap.mem_toList_iff_getElem?_eq_some.2 given
    exact List.mem_append_right _ (List.mem_map.2 ⟨_, mem, rfl⟩)
  | none =>
    rw [given] at known
    obtain ⟨entry, has, rfl⟩ := Option.map_eq_some_iff.1 known
    have mem := Std.ExtTreeMap.mem_toList_iff_getElem?_eq_some.2 has
    exact List.mem_append_left _ (List.mem_map.2 ⟨_, mem, rfl⟩)

namespace Loader

theorem mem_summaries (known : loader.knows name = some summary) : summary ∈ loader.summaries := by
  unfold knows at known
  cases cached : loader.cached? name with
  | some answer =>
    rw [cached] at known
    obtain rfl : answer = some summary := known
    have has := Option.join_eq_some_iff.1 cached
    have entry := Std.ExtTreeMap.mem_toList_iff_getElem?_eq_some.2 has
    exact List.mem_append_right _ (List.mem_filterMap.2 ⟨_, entry, rfl⟩)
  | none =>
    rw [cached] at known
    obtain ⟨source, mem, has⟩ := List.exists_of_findSome?_eq_some known
    exact List.mem_append_left _ (List.mem_flatMap.2 ⟨source, mem, Source.mem_summaries has⟩)

/-- The weight of a loader is that of its summaries and the number of entry points. -/
theorem sum_summaries_add (loader : Loader) :
    (loader.summaries.map ClassSummary.weight).sum +
      (loader.sources.flatMap Source.entryPoints).length = loader.weight := by
  unfold weight
  induction loader.summaries with
  | nil => simp
  | cons first rest ih => rw [List.map_cons, List.sum_cons, Nat.add_assoc, ih, List.foldr_cons]

theorem length_entryPoints_le (loader : Loader) :
    loader.entryPoints.length ≤ (loader.sources.flatMap Source.entryPoints).length :=
  ((nodup_eraseDups _).subperm fun _ mem => List.mem_eraseDups.1 mem).length_le

/-! ### The inventory of a loader -/

/-- The names that summaries and tasks mention, and those that the analysis itself brings in. -/
def inventory (loader : Loader) (roots : List Task) : Inventory where
  classes := (.object :: (loader.summaries.flatMap ClassSummary.mentionedClasses ++
    roots.map Task.cls)).eraseDups
  nodup := nodup_eraseDups _
  methods := .defaultConstructor :: .classInit ::
    (loader.summaries.flatMap ClassSummary.mentionedMethods ++
      roots.filterMap fun task => task.action.method?)
  weight := loader.weight

theorem mem_classes_inventory : name ∈ (loader.inventory roots).classes ↔
    name = .object ∨ (∃ summary ∈ loader.summaries, name ∈ summary.mentionedClasses) ∨
      ∃ task ∈ roots, task.cls = name := by
  simp [inventory, List.mem_eraseDups, List.mem_flatMap]

theorem mem_methods_inventory {method : MethodName} :
    method ∈ (loader.inventory roots).methods ↔
      method = .defaultConstructor ∨ method = .classInit ∨
        (∃ summary ∈ loader.summaries, method ∈ summary.mentionedMethods) ∨
          ∃ task ∈ roots, task.action.method? = some method := by
  simp [inventory, List.mem_flatMap, List.mem_filterMap]

/-- A summary that the loader knows is listed. -/
theorem listsSummary_inventory (mem : summary ∈ loader.summaries) :
    (loader.inventory roots).ListsSummary summary := by
  have classes : ∀ {name}, name ∈ summary.mentionedClasses →
      name ∈ (loader.inventory roots).classes :=
    fun mentioned => mem_classes_inventory.2 (.inr (.inl ⟨summary, mem, mentioned⟩))
  have methods : ∀ {method}, method ∈ summary.mentionedMethods →
      method ∈ (loader.inventory roots).methods :=
    fun mentioned => mem_methods_inventory.2 (.inr (.inr (.inl ⟨summary, mem, mentioned⟩)))
  refine ⟨?_, fun parent declares => ?_, fun field has => ?_, fun method declares => ?_,
    fun demands listed item demanded => ⟨?_, fun method asked => ?_⟩⟩
  · have total := loader.sum_summaries_add
    have le : summary.weight ≤ (loader.summaries.map ClassSummary.weight).sum :=
      List.le_sum_of_mem (List.mem_map_of_mem mem)
    show summary.weight ≤ loader.weight
    omega
  · exact classes (List.mem_append_left _ (List.mem_append_left _ declares))
  · exact classes (List.mem_append_left _ (List.mem_append_right _ has))
  · exact methods (List.mem_append_left _ (List.mem_map_of_mem declares))
  · have mem := List.mem_flatMap.2 ⟨demands, listed, demanded⟩
    exact classes (List.mem_append_right _ (List.mem_map_of_mem mem))
  · have mem := List.mem_flatMap.2 ⟨demands, listed, demanded⟩
    exact methods (List.mem_append_right _ (List.mem_filterMap.2 ⟨item, mem, asked⟩))

/-- All that a run over the classes of the loader can meet is listed. -/
theorem listsSetting_inventory (world : setting.world = loader.knows) :
    (loader.inventory setting.rootTasks).ListsSetting setting where
  world :=
    { object := mem_classes_inventory.2 (.inl rfl)
      defaultConstructor := mem_methods_inventory.2 (.inl rfl)
      classInit := mem_methods_inventory.2 (.inr (.inl rfl))
      summaries := fun known => listsSummary_inventory (mem_summaries (world ▸ known)) }
  roots task mem :=
    ⟨mem_classes_inventory.2 (.inr (.inr ⟨task, mem, rfl⟩)),
      fun _ asked => mem_methods_inventory.2 (.inr (.inr (.inr ⟨task, mem, asked⟩)))⟩

/-- There are not many more classes than the summaries weigh. -/
theorem length_classes_inventory_le (loader : Loader) (roots : List Task) :
    (loader.inventory roots).classes.length ≤
      1 + (loader.summaries.map ClassSummary.weight).sum + roots.length := by
  have once : (loader.inventory roots).classes.length ≤
      (ClassName.object :: (loader.summaries.flatMap ClassSummary.mentionedClasses ++
        roots.map Task.cls)).length :=
    ((loader.inventory roots).nodup.subperm fun _ mem => List.mem_eraseDups.1 mem).length_le
  have mentioned : (loader.summaries.map fun summary => summary.mentionedClasses.length).sum ≤
      (loader.summaries.map ClassSummary.weight).sum :=
    List.sum_le_sum fun summary _ => summary.length_mentionedClasses_le
  simp only [List.length_cons, List.length_append, List.length_flatMap,
    List.length_map] at once
  omega

/-- There are not many more methods either. -/
theorem length_methods_inventory_le (loader : Loader) (roots : List Task) :
    (loader.inventory roots).methods.length ≤
      2 + (loader.summaries.map ClassSummary.weight).sum + roots.length := by
  have mentioned : (loader.summaries.map fun summary => summary.mentionedMethods.length).sum ≤
      (loader.summaries.map ClassSummary.weight).sum :=
    List.sum_le_sum fun summary _ => summary.length_mentionedMethods_le
  have asked : (roots.filterMap fun task => task.action.method?).length ≤ roots.length :=
    List.length_filterMap_le ..
  simp only [inventory, List.length_cons, List.length_append, List.length_flatMap]
  omega

end Loader

/-! ### The cost in the beginning -/

namespace State

/-- What a run costs in the beginning: every class that it could ask for, with all methods that it
could have, and the tasks that it begins with. -/
theorem cost_start_le (fair : setting.IsFair) (listed : inv.ListsSetting setting)
    (known : setting.world .object = some root) :
    inv.cost (State.start setting.allow root setting.requirement setting.entryPoints) ≤
      inv.classes.length * (3 * inv.unit + 2 + 6 * inv.methods.length * (2 * inv.unit)) +
        (2 * (setting.requirement.tasks false).length +
          setting.entryPoints.length * (2 + inv.unit)) := by
  have blank : inv.cost { allowForwarders := setting.allow } ≤
      inv.classes.length * (3 * inv.unit + 2 + 6 * inv.methods.length * (2 * inv.unit)) := by
    have methods : inv.methodsCost none ≤ 6 * inv.methods.length * (2 * inv.unit) := by
      rw [← Inventory.length_keys]
      exact Inventory.sum_map_le_length_mul fun _ _ => Nat.le_refl _
    refine Inventory.sum_map_le_length_mul fun name _ => ?_
    rw [status?_blank]
    exact Nat.add_le_add_left methods _
  -- Taking in and linking the root class adds nothing.
  have lists := inv.listsState_blank setting.allow
  have unseen : ∀ status, status? { allowForwarders := setting.allow } .object = some status →
      ∃ parked, status = .awaited parked := by
    intro status h
    rw [status?_blank] at h
    cases h
  have taken : inv.cost (rootLoaded setting.allow root) <
      inv.cost { allowForwarders := setting.allow } :=
    cost_receive_lt listed.world.object unseen (some root)
  have valid := Changes.valid fair (advances_rootLoaded known).changes (valid_empty setting)
  obtain ⟨linked, _⟩ := Linkings.cost_le listed.world fair valid
    (lists.receive listed.world.object unseen (some root))
    (linkings_linkAvailable fair valid (rootFirst_rootLoaded _ _) (asks_rootLoaded _ _))
  have asked : ∀ state : State, (setting.rootTasks.map (inv.taskCost state)).sum ≤
      2 * (setting.requirement.tasks false).length +
        setting.entryPoints.length * (2 + inv.unit) := by
    intro state
    have required : ((setting.requirement.tasks false).map (inv.taskCost state)).sum ≤
        2 * (setting.requirement.tasks false).length := by
      refine Inventory.tasksCost_le (fun task mem => ?_) state
      obtain ⟨demand, _, action, _⟩ := Requirement.exists_of_mem_tasks mem
      rw [action]
      simp
    have entered : ((setting.entryPoints.map fun cls =>
        { cls, action := .enter, cause := .exports }).map (inv.taskCost state)).sum ≤
          setting.entryPoints.length * (2 + inv.unit) := by
      rw [List.map_map]
      refine Inventory.sum_map_le_length_mul fun name _ => ?_
      simp only [Function.comp_apply, Inventory.taskCost, Inventory.entryFee, if_true]
      split <;> omega
    rw [Setting.rootTasks, List.map_append, List.sum_append]
    exact Nat.add_le_add required entered
  have start : State.start setting.allow root setting.requirement setting.entryPoints =
      (rootLoaded setting.allow root).linkAvailable.extend setting.rootTasks [] := by
    rw [← addTasks_eq]
    rfl
  rw [start, Inventory.cost_extend]
  exact Nat.add_le_add (Nat.le_trans linked (Nat.le_trans (Nat.le_of_lt taken) blank)) (asked _)

end State

/-- With so many mentions, a run costs no more than it is allowed. -/
theorem cost_le_pow {mentions classes methods unit tasks entries : Nat}
    (few_classes : classes ≤ mentions) (few_methods : methods ≤ mentions + 1)
    (small : unit ≤ 2 * mentions) (few : tasks + entries ≤ mentions) :
    classes * (3 * unit + 2 + 6 * methods * (2 * unit)) + (2 * tasks + entries * (2 + unit)) ≤
      (mentions + 7) * (mentions + 7) * (mentions + 7) * (mentions + 7) := by
  calc classes * (3 * unit + 2 + 6 * methods * (2 * unit)) + (2 * tasks + entries * (2 + unit))
      ≤ mentions * (3 * (2 * mentions) + 2 + 6 * (mentions + 1) * (2 * (2 * mentions))) +
          (2 * mentions + mentions * (2 + 2 * mentions)) := by gcongr <;> omega
    _ ≤ mentions * (3 * (2 * mentions) + 2 + 6 * (mentions + 1) * (2 * (2 * mentions))) +
          (2 * mentions + mentions * (2 + 2 * mentions)) +
            (mentions ^ 4 + 4 * mentions ^ 3 + 262 * mentions ^ 2 + 1366 * mentions + 2401) :=
        Nat.le_add_right ..
    _ = (mentions + 7) * (mentions + 7) * (mentions + 7) * (mentions + 7) := by ring

/-- A run over the classes of a loader costs no more in the beginning than it is allowed. -/
theorem Loader.cost_start_le_stepBudget (fair : setting.IsFair)
    (world : setting.world = loader.knows) (same : setting.entryPoints = loader.entryPoints)
    (known : setting.world .object = some root) :
    (loader.inventory setting.rootTasks).cost
        (State.start setting.allow root setting.requirement setting.entryPoints) ≤
      stepBudget loader setting.requirement := by
  have weight := loader.sum_summaries_add
  have entries := loader.length_entryPoints_le
  have classes := loader.length_classes_inventory_le setting.rootTasks
  have methods := loader.length_methods_inventory_le setting.rootTasks
  have roots : setting.rootTasks.length =
      (setting.requirement.tasks false).length + setting.entryPoints.length := by
    rw [Setting.rootTasks, List.length_append, List.length_map]
  have unit : (loader.inventory setting.rootTasks).unit = 2 * (loader.weight + 1) := rfl
  have mentions : loader.weight + (setting.requirement.tasks false).length + 8 =
      loader.weight + (setting.requirement.tasks false).length + 1 + 7 := by omega
  rw [← same] at entries
  refine Nat.le_trans (State.cost_start_le fair (listsSetting_inventory world) known) ?_
  simp only [stepBudget, mentions]
  exact cost_le_pow (by omega) (by omega) (by omega) (by omega)

/-- A run over the classes of a loader, if its root class is in order, ends within the steps that it
is allowed. -/
theorem exists_ends_start (loads : loader.loadSummary .object = (.ok (some root), after))
    (isRoot : root.isRoot = true) : ∃ count ≤ stepBudget after requirement,
      (State.start allow root requirement loader.entryPoints).Ends count after := by
  let setting := loader.settingFor allow requirement fun _ => True
  have known : some root = loader.knows .object :=
    Loader.knows_of_loadSummary (congrArg Prod.fst loads)
  have asks : loader.Loads after := by
    have load : loader.Load (loader.loadSummary .object).2 := .summary .object
    rw [loads] at load
    exact .single load
  have world : setting.world = after.knows := asks.knows.symm
  have entries : setting.entryPoints = after.entryPoints := asks.entryPoints_eq.symm
  have fair : setting.IsFair := Loader.isFair_settingFor ⟨root, known.symm, isRoot⟩
  have enough := Loader.cost_start_le_stepBudget fair world entries known.symm
  have course : Course allow requirement loader _ _ after := .start loads isRoot
  obtain ⟨count, few, ends⟩ := course.ends (Loader.listsSetting_inventory world)
  exact ⟨count, Nat.le_trans few enough, ends⟩

/-- An analysis ends within the steps that it is allowed. -/
theorem analyze_ne_outOfSteps (allow : Bool) (requirement : Requirement) (loader : Loader) :
    (analyze allow requirement loader).1 ≠ .error .outOfSteps := by
  unfold analyze
  simp only
  split
  · simp
  · cases loads : loader.loadSummary .object with
    | mk answer later =>
      rcases answer with _ | _ | root
      · simp
      · simp
      · simp only
        split
        · simp
        · rename_i proper
          have isRoot : root.isRoot = true := by simpa using proper
          obtain ⟨count, few, ends⟩ :=
            @exists_ends_start root allow requirement loader later loads isRoot
          have settles := ends.settle_ne_outOfSteps few
          generalize (State.start allow root requirement loader.entryPoints).settle
            (stepBudget later requirement) later = settled at settles ⊢
          obtain ⟨error | final, last⟩ := settled
          · have same : error ≠ .outOfSteps := fun h => settles (h ▸ rfl)
            simpa [Except.map] using same
          · simp [Except.map]

end ClassLinker
