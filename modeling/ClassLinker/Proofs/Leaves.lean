import ClassLinker.Proofs.Runs

/-!
# The leaves of a requirement

A requirement asks for what its leaves ask for, and all that matters of the tree around a leaf is
whether the leaf lies below an optional requirement. `Requirement.HasLeaf` tells which leaves there
are, and `Requirement.mem_tasks_iff` that the tasks of a requirement are those of its leaves.
-/

namespace ClassLinker.Requirement

variable {requirement leaf : Requirement} {isOptional below : Bool} {task : Task}

/-- The leaf occurs in the requirement, below an optional one or not. -/
inductive HasLeaf : Requirement → Bool → Requirement → Prop
  | self {leaf : Requirement} (isLeaf : leaf.leaf?.isSome = true) : HasLeaf leaf false leaf
  | optional {inner leaf : Requirement} {isOptional : Bool} (has : HasLeaf inner isOptional leaf) :
      HasLeaf (.optional inner) true leaf
  | every {all : List Requirement} {part leaf : Requirement} {isOptional : Bool}
      (mem : part ∈ all) (has : HasLeaf part isOptional leaf) :
      HasLeaf (.every all) isOptional leaf

@[simp] theorem hasLeaf_optional {inner : Requirement} :
    (optional inner).HasLeaf isOptional leaf ↔
      isOptional = true ∧ ∃ below, inner.HasLeaf below leaf := by
  constructor
  · rintro (⟨isLeaf⟩ | has)
    · cases isLeaf
    · exact ⟨rfl, _, has⟩
  · rintro ⟨rfl, _, has⟩
    exact .optional has

@[simp] theorem hasLeaf_every {all : List Requirement} :
    (every all).HasLeaf isOptional leaf ↔ ∃ part ∈ all, part.HasLeaf isOptional leaf := by
  constructor
  · rintro (⟨isLeaf⟩ | _ | ⟨mem, has⟩)
    · cases isLeaf
    · exact ⟨_, mem, has⟩
  · rintro ⟨_, mem, has⟩
    exact .every mem has

/-- A leaf has no leaf but itself. -/
theorem hasLeaf_self (isLeaf : requirement.leaf?.isSome = true) :
    requirement.HasLeaf isOptional leaf ↔ isOptional = false ∧ leaf = requirement := by
  constructor
  · intro has
    cases has with
    | self => exact ⟨rfl, rfl⟩
    | optional | every => cases isLeaf
  · rintro ⟨rfl, rfl⟩
    exact .self isLeaf

/-- The leaf needs something of the class for the component. -/
def IsFor (leaf : Requirement) (asker : String) (cls : ClassName) : Prop :=
  ∃ demands, leaf.leaf? = some (asker, cls, demands)

/-- A leaf asks for something. -/
theorem exists_mem_leafTasks {asker : String} {cls : ClassName} (needs : leaf.IsFor asker cls)
    (isOptional : Bool) : ∃ task ∈ leaf.leafTasks isOptional,
      task.cls = cls ∧ task.cause = .component asker ∧ task.isOptional = isOptional := by
  obtain ⟨demands, asks⟩ := needs
  have some_demand : ∃ demand, demand ∈ demands := by
    refine List.exists_mem_of_ne_nil _ ?_
    rintro rfl
    cases leaf <;> simp [leaf?, Demand.newInstance] at asks
  obtain ⟨demand, mem⟩ := some_demand
  exact ⟨_, by rw [leafTasks, asks]; exact List.mem_map.2 ⟨demand, mem, rfl⟩, rfl, rfl, rfl⟩

/-- What a leaf asks for is for its class and its component. -/
theorem isFor_of_mem_leafTasks (mem : task ∈ leaf.leafTasks isOptional) :
    ∃ asker, leaf.IsFor asker task.cls ∧ task.cause = .component asker ∧
      task.isOptional = isOptional := by
  unfold leafTasks at mem
  split at mem
  · rename_i asker cls demands asks
    obtain ⟨demand, _, rfl⟩ := List.mem_map.1 mem
    exact ⟨asker, ⟨demands, asks⟩, rfl, rfl⟩
  · cases mem

/-- Whether a leaf lies below an optional requirement if the whole tree may do so. -/
theorem mem_tasks_of_hasLeaf (has : requirement.HasLeaf isOptional leaf)
    (mem : task ∈ leaf.leafTasks (below || isOptional)) : task ∈ requirement.tasks below := by
  induction has generalizing below with
  | @self leaf isLeaf =>
    rw [Bool.or_false] at mem
    cases leaf with
    | optional | every | nothing => cases isLeaf
    | _ => exact mem
  | @optional inner leaf isOptional _ ih =>
    rw [Bool.or_true] at mem
    exact ih (by rwa [Bool.true_or])
  | every part_mem _ ih =>
    simp only [tasks, tasksOfAll_eq_flatMap]
    exact List.mem_flatMap.2 ⟨_, part_mem, ih mem⟩

mutual

theorem hasLeaf_of_mem_tasks : ∀ {requirement : Requirement} {below : Bool},
    task ∈ requirement.tasks below → ∃ isOptional leaf, requirement.HasLeaf isOptional leaf ∧
      task ∈ leaf.leafTasks (below || isOptional)
  | .optional _, below, mem => by
    obtain ⟨isOptional, leaf, has, mem⟩ := @hasLeaf_of_mem_tasks _ true mem
    rw [Bool.true_or] at mem
    exact ⟨true, leaf, .optional has, by rwa [Bool.or_true]⟩
  | .every _, below, mem => by
    obtain ⟨part, isOptional, leaf, part_mem, has, mem⟩ := hasLeaf_of_mem_tasksOfAll mem
    exact ⟨isOptional, leaf, .every part_mem has, mem⟩
  | .module .., _, mem | .instances .., _, mem | .tests .., _, mem | .typeData .., _, mem
  | .staticField .., _, mem | .call .., _, mem | .callDirect .., _, mem
  | .callStatic .., _, mem => ⟨false, _, .self rfl, by rwa [Bool.or_false]⟩
  | .nothing, _, mem => by cases mem

theorem hasLeaf_of_mem_tasksOfAll : ∀ {all : List Requirement} {below : Bool},
    task ∈ tasksOfAll below all → ∃ part isOptional leaf, part ∈ all ∧
      part.HasLeaf isOptional leaf ∧ task ∈ leaf.leafTasks (below || isOptional)
  | first :: _, below, mem => by
    rcases List.mem_append.1 mem with mem | mem
    · obtain ⟨isOptional, leaf, has, mem⟩ := hasLeaf_of_mem_tasks mem
      exact ⟨first, isOptional, leaf, List.mem_cons_self, has, mem⟩
    · obtain ⟨part, isOptional, leaf, part_mem, has, mem⟩ := hasLeaf_of_mem_tasksOfAll mem
      exact ⟨part, isOptional, leaf, List.mem_cons_of_mem _ part_mem, has, mem⟩

end

/-- The tasks of a requirement are those of its leaves. -/
theorem mem_tasks_iff : task ∈ requirement.tasks false ↔
    ∃ isOptional leaf, requirement.HasLeaf isOptional leaf ∧ task ∈ leaf.leafTasks isOptional := by
  refine ⟨fun mem => ?_, fun ⟨isOptional, leaf, has, mem⟩ => ?_⟩
  · obtain ⟨isOptional, leaf, has, mem⟩ := hasLeaf_of_mem_tasks mem
    exact ⟨isOptional, leaf, has, by rwa [Bool.false_or] at mem⟩
  · exact mem_tasks_of_hasLeaf has (by rwa [Bool.false_or])

mutual

/-- A requirement without tasks requires nothing. -/
theorem isEmpty_of_tasks {below : Bool} :
    ∀ {requirement : Requirement}, requirement.tasks below = [] → requirement.isEmpty = true
  | .optional inner, idle => @isEmpty_of_tasks true inner idle
  | .every _, idle => isEmpty_of_tasksOfAll idle
  | .module .., idle | .instances .., idle | .tests .., idle | .typeData .., idle
  | .staticField .., idle | .call .., idle | .callDirect .., idle | .callStatic .., idle => by
    cases idle
  | .nothing, _ => rfl

theorem isEmpty_of_tasksOfAll {below : Bool} :
    ∀ {all : List Requirement}, tasksOfAll below all = [] → allEmpty all = true
  | [], _ => rfl
  | _ :: _, idle => by
    obtain ⟨first, rest⟩ := List.append_eq_nil_iff.1 idle
    exact Bool.and_eq_true_iff.2 ⟨isEmpty_of_tasks first, isEmpty_of_tasksOfAll rest⟩

end

end ClassLinker.Requirement
