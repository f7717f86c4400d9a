import ClassLinker.Proofs.Inventory
import Mathlib.Algebra.GroupWithZero.Nat
import Mathlib.Algebra.Order.BigOperators.Group.List
import Mathlib.Algebra.Order.Group.Nat

/-!
# What is left to do

`Inventory.cost` bounds the steps that a run can still make. Whatever gives rise to tasks does so
once, and pays for them with `Inventory.unit`, which is enough for any of them:

* a class that nothing has asked for costs one step to ask for it and one to take it in, and what
  the three things that can happen to it once cost: it gets instances, instances of itself are
  created, or its module is read;
* every method that the class could have costs what its first call does, and the same again for its
  being replaced by a bridge, unless it has code;
* a task costs one step, and another one if its class is not settled, for it is parked then. A task
  that enters a class pays for what it brings up itself.

`Inventory.cost_setStatus_le` and `Inventory.cost_extend` tell how a change of the table or of the
list of tasks changes the cost, and `Inventory.classCost_withCall` how a call does.
-/

namespace ClassLinker

variable {state next : State}
variable {name owner : ClassName} {cls record : ClassRecord} {task : Task}
variable {key : MethodKey} {entry : MethodRecord} {cause : Cause} {errors : List Diagnostic}
variable {tasks : List Task} {inv : Inventory} {method : MethodName}

/-- Tells whether nothing more happens to the stage of the class. -/
def Status.isSettled : Status → Bool
  | linked _ | failed => true
  | awaited _ | loaded _ _ => false

/-- Tells whether a task for the class is not parked. -/
def State.isSettledAt (state : State) (name : ClassName) : Bool :=
  (state.status? name).any Status.isSettled

namespace Inventory

/-! ### Costs -/

/-- The cost of what anything gives rise to at once, which is two steps for each task. -/
def unit (inv : Inventory) : Nat :=
  2 * (inv.weight + 1)

/-- The cost of what can happen once, if it has not happened yet. -/
def costUnless (inv : Inventory) (happened : Bool) : Nat :=
  if happened then 0 else inv.unit

/-- The cost of what a task brings up when it enters a class. -/
def entryFee (inv : Inventory) (task : Task) : Nat :=
  if task.action = .enter then inv.unit else 0

/-- The cost of a task on the list. -/
def taskCost (inv : Inventory) (state : State) (task : Task) : Nat :=
  (if state.isSettledAt task.cls then 1 else 2) + inv.entryFee task

/-- The cost of tasks that are parked. -/
def parkedCost (inv : Inventory) (tasks : List Task) : Nat :=
  (tasks.map fun task => 1 + inv.entryFee task).sum

/-- The cost of a class apart from its methods. -/
def stageCost (inv : Inventory) : Option Status → Nat
  | none => 3 * inv.unit + 2
  | some (.awaited parked) => 3 * inv.unit + 1 + inv.parkedCost parked
  | some (.loaded _ parked) => 3 * inv.unit + inv.parkedCost parked
  | some (.linked cls) => inv.costUnless cls.hasInstances + inv.costUnless cls.uses.instances +
      inv.costUnless cls.uses.module
  | some .failed => 0

/-- The cost of a method that a class could have. -/
def methodCost (inv : Inventory) : Option MethodRecord → Nat
  | none => 2 * inv.unit
  | some entry => inv.costUnless entry.isReached + inv.costUnless entry.isConcrete

/-- The methods that a class could have. -/
def keys (inv : Inventory) : List MethodKey :=
  Namespace.all.flatMap fun space => inv.methods.map (MethodKey.mk space)

/-- The cost of all methods that a class could have. -/
def methodsCost (inv : Inventory) (cls : Option ClassRecord) : Nat :=
  (inv.keys.map fun key => inv.methodCost (cls.bind fun cls => cls.method? key)).sum

/-- The cost of a class. -/
def classCost (inv : Inventory) (status : Option Status) : Nat :=
  inv.stageCost status + inv.methodsCost (status.bind Status.record?)

/-- The cost of a state. -/
def cost (inv : Inventory) (state : State) : Nat :=
  (inv.classes.map fun name => inv.classCost (state.status? name)).sum +
    (state.work.map (inv.taskCost state)).sum

@[simp] theorem costUnless_true : inv.costUnless true = 0 := rfl

@[simp] theorem costUnless_false : inv.costUnless false = inv.unit := rfl

theorem costUnless_le (happened : Bool) : inv.costUnless happened ≤ inv.unit := by
  cases happened <;> simp

theorem mem_keys : key ∈ inv.keys ↔ key.name ∈ inv.methods := by
  obtain ⟨space, name⟩ := key
  have all : space ∈ Namespace.all := by cases space <;> decide
  simp [keys, all]

theorem length_keys : inv.keys.length = 6 * inv.methods.length := by
  simp [keys, Namespace.all]
  omega

theorem methodCost_le (entry : Option MethodRecord) : inv.methodCost entry ≤ 2 * inv.unit := by
  cases entry with
  | none => exact Nat.le_refl _
  | some entry =>
    have reached := @costUnless_le inv entry.isReached
    have concrete := @costUnless_le inv entry.isConcrete
    simp only [methodCost]
    omega

/-- No class has methods that cost more than those of one that is not linked. -/
theorem methodsCost_le (cls : Option ClassRecord) : inv.methodsCost cls ≤ inv.methodsCost none :=
  List.sum_le_sum fun _ _ => methodCost_le _

/-- A bound for each member gives one for the sum. -/
theorem sum_map_le_length_mul {α : Type} {measure : α → Nat} {xs : List α} {bound : Nat}
    (le : ∀ x ∈ xs, measure x ≤ bound) : (xs.map measure).sum ≤ xs.length * bound := by
  have total := List.sum_le_card_nsmul (xs.map measure) bound (List.forall_mem_map.2 le)
  rwa [List.length_map, Nat.nsmul_eq_mul] at total

/-- Tasks that enter no class cost two steps each. -/
theorem tasksCost_le (asks : ∀ task ∈ tasks, task.action ≠ .enter) (state : State) :
    (tasks.map (inv.taskCost state)).sum ≤ 2 * tasks.length := by
  rw [Nat.mul_comm]
  refine sum_map_le_length_mul fun task mem => ?_
  simp only [taskCost, entryFee, if_neg (asks task mem)]
  split <;> omega

/-- What follows from something in a class costs a unit at most. -/
theorem Admits.cost_le (admits : inv.Admits tasks) (state : State) :
    (tasks.map (inv.taskCost state)).sum ≤ inv.unit := by
  have total : (tasks.map (inv.taskCost state)).sum ≤ 2 * tasks.length :=
    tasksCost_le admits.asks state
  have length := admits.length_le
  unfold unit
  omega

/-! ### Changes of the cost -/

/-- A state in which more classes are settled does not ask for more steps to do a task. -/
theorem taskCost_le (settled : ∀ name, state.isSettledAt name = true → next.isSettledAt name = true)
    (task : Task) : inv.taskCost next task ≤ inv.taskCost state task := by
  refine Nat.add_le_add_right ?_ _
  cases h : state.isSettledAt task.cls with
  | true => simp [settled task.cls h]
  | false => simp; split <;> omega

theorem taskCost_pos (inv : Inventory) (state : State) (task : Task) :
    0 < inv.taskCost state task := by
  unfold taskCost
  split <;> omega

/-- If no class costs more and no task is added, then the cost does not rise. -/
theorem cost_le (work : next.work = state.work)
    (settled : ∀ name, state.isSettledAt name = true → next.isSettledAt name = true)
    (le : ∀ name, inv.classCost (next.status? name) ≤ inv.classCost (state.status? name)) :
    inv.cost next ≤ inv.cost state := by
  unfold cost
  rw [work]
  exact Nat.add_le_add (List.sum_le_sum fun name _ => le name)
    (List.sum_le_sum fun task _ => taskCost_le settled task)

/-- The first task on the list adds its own cost to that of the rest. -/
theorem cost_eq_add {rest : List Task} (work : state.work = task :: rest) :
    inv.cost state =
      inv.cost { state with work := rest } + inv.taskCost { state with work := rest } task := by
  show _ + (state.work.map (inv.taskCost state)).sum =
    (inv.classes.map fun name => inv.classCost (state.status? name)).sum +
      (rest.map (inv.taskCost state)).sum + inv.taskCost state task
  rw [work, List.map_cons, List.sum_cons, Nat.add_comm (inv.taskCost state task), Nat.add_assoc]

theorem cost_extend (tasks : List Task) (errors : List Diagnostic) :
    inv.cost (state.extend tasks errors) =
      inv.cost state + (tasks.map (inv.taskCost state)).sum := by
  unfold cost
  rw [show (state.extend tasks errors).work = state.work ++ tasks from rfl, List.map_append,
    List.sum_append, ← Nat.add_assoc]
  rfl

/-- Tasks that enter no class cost two steps each. -/
theorem cost_extend_le (asks : ∀ task ∈ tasks, task.action ≠ .enter) (errors : List Diagnostic) :
    inv.cost (state.extend tasks errors) ≤ inv.cost state + 2 * tasks.length := by
  rw [cost_extend]
  exact Nat.add_le_add_left (tasksCost_le asks state) _

/-- The status of one class makes just the difference that it makes for the class. -/
theorem cost_setStatus_le (mem : name ∈ inv.classes) {status : Status}
    (keeps : state.isSettledAt name = true → status.isSettled = true) :
    inv.cost (state.setStatus name status) + inv.classCost (state.status? name) ≤
      inv.cost state + inv.classCost (some status) := by
  let next := state.setStatus name status
  have same : ∀ other, other ≠ name → next.status? other = state.status? other := by
    intro other ne
    rw [State.status?_setStatus, if_neg (Ne.symm ne)]
  have at_ : next.status? name = some status := by rw [State.status?_setStatus, if_pos rfl]
  let classCost := fun (state : State) name => inv.classCost (state.status? name)
  have others : (inv.classes.erase name).map (classCost next) =
      (inv.classes.erase name).map (classCost state) := by
    refine List.map_congr_left fun other left => ?_
    simp only [classCost, same other ((List.Nodup.mem_erase_iff inv.nodup).1 left).1]
  have classes : (inv.classes.map (classCost next)).sum + classCost state name =
      (inv.classes.map (classCost state)).sum + classCost next name := by
    rw [← List.sum_map_erase _ mem, ← List.sum_map_erase (classCost state) mem, others]
    omega
  have settled : ∀ other, state.isSettledAt other = true → next.isSettledAt other = true := by
    intro other before
    unfold State.isSettledAt
    by_cases h : other = name
    · rw [h, at_]
      exact keeps (h ▸ before)
    · rw [same other h]
      exact before
  have work : (next.work.map (inv.taskCost next)).sum ≤
      (state.work.map (inv.taskCost state)).sum :=
    List.sum_le_sum fun task _ => taskCost_le settled task
  simp only [classCost, at_] at classes
  show inv.cost next + _ ≤ _
  unfold cost
  omega

/-- If a class is linked or changed, then it pays for the tasks that follow, if it can. -/
theorem cost_revise_le (mem : name ∈ inv.classes) (errors : List Diagnostic)
    (paid : inv.classCost (some (.linked record)) +
      (tasks.map (inv.taskCost (state.setClass name record))).sum ≤
        inv.classCost (state.status? name)) :
    inv.cost (state.revise name record tasks errors) ≤ inv.cost state := by
  have set : inv.cost (state.setClass name record) + inv.classCost (state.status? name) ≤
      inv.cost state + inv.classCost (some (.linked record)) := cost_setStatus_le mem fun _ => rfl
  rw [show state.revise name record tasks errors =
    (state.setClass name record).extend tasks errors from rfl, cost_extend]
  omega

/-! ### Linked classes -/

/-- Classes with the same methods differ only in what their stages cost. -/
theorem classCost_linked_add {cost : Nat} (methods : record.methods = cls.methods)
    (stage : inv.stageCost (some (.linked record)) + cost =
      inv.stageCost (some (.linked cls))) :
    inv.classCost (some (.linked record)) + cost = inv.classCost (some (.linked cls)) := by
  have same : inv.methodsCost (some record) = inv.methodsCost (some cls) := by
    simp only [methodsCost, Option.bind_some, ClassRecord.method?, methods]
  show _ + inv.methodsCost (some record) + cost = _ + inv.methodsCost (some cls)
  rw [same, ← stage, Nat.add_right_comm]

/-- What is learned of a class makes it no more expensive. -/
theorem classCost_learn (learns : cls.Learns record) :
    inv.classCost (some (.linked record)) ≤ inv.classCost (some (.linked cls)) := by
  have stage : inv.stageCost (some (.linked record)) ≤ inv.stageCost (some (.linked cls)) := by
    cases learns with
    | use use => cases use <;> simp [stageCost, ClassRecord.addUse, Uses.insert]
    | creator | inhabit | note => exact Nat.le_refl _
    | instances => simp [stageCost]
  have paid := classCost_linked_add learns.methods_eq (Nat.add_sub_cancel' stage)
  exact Nat.le_of_add_right_le (Nat.le_of_eq paid)

theorem cost_learn_le (mem : name ∈ inv.classes) (found : state.class? name = some cls)
    (learns : cls.Learns record) : inv.cost (state.revise name record [] []) ≤ inv.cost state :=
  cost_revise_le mem [] (by rw [State.class?_eq_some.1 found]; exact classCost_learn learns)

/-- What a call finds pays for the call being the first one, and for what it replaces. -/
theorem methodCost_calledBy (inv : Inventory) (finds : Finds state owner cls key entry)
    (cause : Cause) :
    inv.methodCost (some (entry.calledBy cause)) + inv.costUnless entry.isReached ≤
      inv.methodCost (cls.method? key) := by
  show inv.costUnless true + inv.costUnless entry.isConcrete + inv.costUnless entry.isReached ≤ _
  cases finds with
  | there has =>
    rw [has]
    simp only [methodCost, costUnless_true]
    omega
  | absent lacks =>
    rw [lacks]
    simp [methodCost, MethodRecord.absent, MethodRecord.isConcrete, Nat.two_mul]
  | added replaces chosen =>
    cases has : cls.method? key with
    | none =>
      simp [methodCost, MethodRecord.isConcrete]
      omega
    | some known =>
      simp only [methodCost, replaces known has, costUnless_false]
      simp [MethodRecord.isConcrete]

/-- So does the class that the call lands in. -/
theorem classCost_withCall (inv : Inventory) (named : key.name ∈ inv.methods)
    (finds : Finds state owner cls key entry) (cause : Cause) :
    inv.classCost (some (.linked (cls.withCall key entry cause))) + inv.costUnless entry.isReached ≤
      inv.classCost (some (.linked cls)) := by
  have called : inv.methodCost ((cls.withCall key entry cause).method? key) +
      inv.costUnless entry.isReached ≤ inv.methodCost (cls.method? key) := by
    rw [ClassRecord.method?_withCall, if_pos rfl]
    exact methodCost_calledBy inv finds cause
  have methods : inv.methodsCost (some (cls.withCall key entry cause)) +
      inv.costUnless entry.isReached ≤ inv.methodsCost (some cls) := by
    -- The other methods cost what they did, or less if the key is listed again.
    have others : ((inv.keys.erase key).map fun other =>
          inv.methodCost ((cls.withCall key entry cause).method? other)).sum ≤
        ((inv.keys.erase key).map fun other => inv.methodCost (cls.method? other)).sum := by
      refine List.sum_le_sum fun other _ => ?_
      rw [ClassRecord.method?_withCall]
      split
      · rename_i same
        rw [← same]
        exact Nat.le_trans (Nat.le_add_right ..) (methodCost_calledBy inv finds cause)
      · exact Nat.le_refl _
    simp only [methodsCost, Option.bind_some]
    rw [← List.sum_map_erase _ (mem_keys.2 named),
      ← List.sum_map_erase (fun other => inv.methodCost (cls.method? other)) (mem_keys.2 named)]
    omega
  show _ + inv.methodsCost (some (cls.withCall key entry cause)) + _ ≤
    _ + inv.methodsCost (some cls)
  rw [Nat.add_assoc]
  exact Nat.add_le_add_left methods _

end Inventory

end ClassLinker
