import ClassLinker.Proofs.CostsOfTasks

/-!
# The costs of runs

Linking does not raise what is left to do (`Linkings.cost_le`), and taking in classes lowers it
(`State.cost_loadWanted_le`). So every step of a run lowers it (`Course.cost_lt`), and the run comes
to its end (`Course.ends`). `State.Ends` is the loop that a run makes, without any bound.
-/

namespace ClassLinker

variable {setting : Setting} {state next : State}
variable {name : ClassName} {task : Task} {inv : Inventory}

/-! ### Linking -/

namespace Inventory

/-- A class that is linked, and a class that has failed, costs no more than one that is loaded. -/
theorem classCost_settled_le (record : ClassRecord) :
    inv.classCost (some (.linked record)) ≤ 3 * inv.unit + inv.methodsCost none := by
  have instances := @costUnless_le inv record.hasInstances
  have created := @costUnless_le inv record.uses.instances
  have read := @costUnless_le inv record.uses.module
  have methods := @methodsCost_le inv (some record)
  show _ + inv.methodsCost (some record) ≤ _
  simp only [stageCost]
  omega

theorem classCost_failed_le (summary : Option ClassSummary) (parked : List Task) :
    inv.classCost (some .failed) ≤ inv.classCost (some (.loaded summary parked)) :=
  Nat.add_le_add_right (Nat.zero_le _) _

/-- The tasks that are parked with a class cost just what they cost on the list, once the class is
linked. -/
theorem cost_link_le (lists : inv.ListsState state) {summary : Option ClassSummary}
    {parked : List Task} (status : state.status? name = some (.loaded summary parked))
    (record : ClassRecord) (errors : List Diagnostic) :
    inv.cost (state.revise name record parked errors) ≤ inv.cost state := by
  have settled : (state.setClass name record).isSettledAt name = true := by
    rw [State.isSettledAt, State.setClass, State.status?_setStatus, if_pos rfl]
    rfl
  have same : (parked.map (inv.taskCost (state.setClass name record))).sum =
      inv.parkedCost parked := by
    refine congrArg List.sum (List.map_congr_left fun task mem => ?_)
    rw [taskCost, (lists.parked status mem).1, if_pos settled]
  have linked := @classCost_settled_le inv record
  refine cost_revise_le (lists.table status) errors ?_
  rw [same, status]
  show _ ≤ 3 * inv.unit + inv.parkedCost parked + inv.methodsCost none
  omega

end Inventory

/-- Linking does not raise the cost. -/
theorem Linking.cost_le (lists : inv.ListsState state) (listed : inv.ListsState next)
    (linking : Linking setting state next) : inv.cost next ≤ inv.cost state := by
  cases linking with
  | settle step =>
    cases step with
    | absent status => exact Inventory.cost_link_le lists status _ _
    | link parents status => exact Inventory.cost_link_le lists status _ _
    | @fail name _ summary parked status =>
      have set : inv.cost (state.setStatus name .failed) + inv.classCost (state.status? name) ≤
          inv.cost state + inv.classCost (some .failed) :=
        Inventory.cost_setStatus_le (lists.table status) fun _ => rfl
      have less := @Inventory.classCost_failed_le inv (some summary) parked
      rw [status] at set
      omega
    | @cycle first rest _ loaded =>
      have work : (state.failCycle (first :: rest) first).work = state.work := by
        rw [State.failCycle_eq]
      refine Inventory.cost_le work (fun name settled => ?_) fun name => ?_
      · rw [State.isSettledAt, State.status?_failCycle]
        split
        · rfl
        · exact settled
      · rw [State.status?_failCycle]
        split
        · rename_i mem
          obtain ⟨summary, parked, status⟩ := loaded name mem
          rw [status]
          exact Inventory.classCost_failed_le _ _
        · exact Nat.le_refl _
  | @request child parent _ new =>
    have status : (state.await parent []).status? parent = some (.awaited []) := by
      rw [State.status?_await, if_pos rfl]
    have set : inv.cost (state.setStatus parent (.awaited [])) +
        inv.classCost (state.status? parent) ≤
          inv.cost state + inv.classCost (some (.awaited [])) := by
      refine Inventory.cost_setStatus_le (listed.table status) fun settled => ?_
      rw [State.isSettledAt, new] at settled
      cases settled
    have less : inv.classCost (some (.awaited [])) ≤ inv.classCost none :=
      Nat.add_le_add_right (Nat.le_succ _) _
    rw [new] at set
    show inv.cost (state.setStatus parent (.awaited [])) ≤ _
    omega
  | queue => exact Nat.le_refl _

theorem Linkings.cost_le (world : inv.ListsWorld setting.world) (fair : setting.IsFair)
    (valid : state.Valid setting) (lists : inv.ListsState state)
    (linkings : Linkings setting state next) :
    inv.cost next ≤ inv.cost state ∧ inv.ListsState next := by
  induction linkings with
  | refl => exact ⟨Nat.le_refl _, lists⟩
  | tail early linking ih =>
    obtain ⟨le, lists⟩ := ih
    have valid := Changes.valid fair (Linkings.changes early) valid
    have listed := linking.listsState world valid lists
    exact ⟨Nat.le_trans (linking.cost_le lists listed) le, listed⟩

/-! ### Loading -/

namespace State

/-- A class that is taken in costs less than one that is awaited. -/
theorem cost_receive_lt (mem : name ∈ inv.classes)
    (unseen : ∀ status, state.status? name = some status → ∃ parked, status = .awaited parked)
    (summary : Option ClassSummary) :
    inv.cost (state.receive name summary) < inv.cost state := by
  obtain ⟨parked, same, new, awaited⟩ := state.receive_eq name summary
  have less : inv.classCost (some (.loaded summary parked)) <
      inv.classCost (state.status? name) := by
    cases h : state.status? name with
    | none =>
      rw [new h]
      exact Nat.add_lt_add_right (by simp [Inventory.stageCost, Inventory.parkedCost]) _
    | some status =>
      obtain ⟨before, rfl⟩ := unseen status h
      rw [awaited before h]
      refine Nat.add_lt_add_right ?_ (inv.methodsCost none)
      show 3 * inv.unit + inv.parkedCost before < 3 * inv.unit + 1 + inv.parkedCost before
      omega
  have set : inv.cost (state.setStatus name (.loaded summary parked)) +
      inv.classCost (state.status? name) ≤
        inv.cost state + inv.classCost (some (.loaded summary parked)) := by
    refine Inventory.cost_setStatus_le mem fun settled => ?_
    rw [isSettledAt] at settled
    cases h : state.status? name with
    | none =>
      rw [h] at settled
      cases settled
    | some status =>
      obtain ⟨before, rfl⟩ := unseen status h
      rw [h] at settled
      cases settled
  rw [same]
  show inv.cost (state.setStatus name (.loaded summary parked)) < _
  omega

/-- Each class that is taken in makes up for a step. -/
theorem cost_receiveAll_le {answers : List (ClassName × Except LoadError (Option ClassSummary))}
    (received : state.receiveAll answers = .ok next) (lists : inv.ListsState state)
    (nodup : (answers.map Prod.fst).Nodup)
    (awaited : ∀ name ∈ answers.map Prod.fst,
      ∃ parked, state.status? name = some (.awaited parked)) :
    inv.cost next + answers.length ≤ inv.cost state ∧ inv.ListsState next := by
  induction answers generalizing state with
  | nil =>
    cases received
    exact ⟨Nat.le_refl _, lists⟩
  | cons answer rest ih =>
    obtain ⟨name, _ | summary⟩ := answer
    · cases received
    · obtain ⟨fresh, nodup⟩ := List.nodup_cons.1 nodup
      obtain ⟨parked, status⟩ := awaited name List.mem_cons_self
      have unseen : ∀ before, state.status? name = some before →
          ∃ parked, before = .awaited parked :=
        fun before h => ⟨parked, Option.some.inj (h.symm.trans status)⟩
      have first := cost_receive_lt (lists.table status) unseen summary
      have lists' := lists.receive (lists.table status) unseen summary
      obtain ⟨later, listed⟩ := ih received lists' nodup fun other mem => by
          have ne : name ≠ other := by rintro rfl; exact fresh mem
          rw [show (state.receive name summary).status? other = _ from status?_setStatus ..,
            if_neg ne]
          exact awaited other (List.mem_cons_of_mem _ mem)
      rw [List.length_cons]
      exact ⟨by omega, listed⟩

/-- Loading all classes that are wanted lowers the cost by one for each of them. -/
theorem cost_loadWanted_le (fair : setting.IsFair) (world : inv.ListsWorld setting.world)
    (order : state.InOrder setting) (lists : inv.ListsState state) {loader : Loader}
    (same : setting.world = loader.knows) (loads : (state.loadWanted loader).1 = .ok next) :
    inv.cost next + state.wanted.length ≤ inv.cost state := by
  obtain ⟨answers, middle, loads⟩ := order.loads same loads
  have handed : inv.ListsState { state with wanted := [] } := lists.requeue rfl (List.Subset.refl _)
  obtain ⟨taken, lists⟩ := cost_receiveAll_le loads.received handed loads.nodup loads.awaited
  have valid := Changes.valid fair loads.advances.changes order.valid
  have linked := (Linkings.cost_le world fair valid lists
    (linkings_linkAvailable fair valid (loads.rootFirst order.rooted) loads.asks)).1
  have length := congrArg List.length loads.names
  rw [List.length_map] at length
  rw [loads.next_eq, ← length]
  exact Nat.le_trans (Nat.add_le_add_right linked _) taken

end State

/-! ### Courses -/

/-- A run from the state, whatever it is allowed, comes to its end after so many steps: nothing is
left to do, or loading fails. -/
inductive State.Ends : Nat → State → Loader → Prop
  | settled {state : State} {loader : Loader} (settled : state.isSettled = true) :
      Ends 0 state loader
  | fails {state : State} {before after : Loader} {error : LoadError}
      (busy : state.isSettled = false) (fails : state.step before = (.error error, after)) :
      Ends 1 state before
  | step {count : Nat} {state next : State} {before after : Loader}
      (busy : state.isSettled = false) (steps : state.step before = (.ok next, after))
      (ends : Ends count next after) : Ends (count + 1) state before

/-- A run that is allowed the steps that it takes does not run out of them. -/
theorem State.Ends.settle_ne_outOfSteps {count allowed : Nat} {loader : Loader}
    (ends : state.Ends count loader) (enough : count ≤ allowed) :
    (state.settle allowed loader).1 ≠ .error .outOfSteps := by
  induction ends generalizing allowed with
  | settled settled => cases allowed <;> simp [State.settle, settled]
  | fails busy fails =>
    obtain ⟨allowed, rfl⟩ := Nat.exists_eq_add_of_le' enough
    simp [State.settle, busy, fails]
  | step busy steps _ ih =>
    obtain ⟨allowed, rfl⟩ := Nat.exists_eq_add_of_le' enough
    simp only [State.settle, busy, steps, Bool.false_eq_true, if_false]
    exact ih (Nat.le_add_left ..)

namespace Course

variable {allow : Bool} {requirement : Requirement} {loader before after : Loader}
variable {history : History}

section

variable (known : inv.ListsSetting (loader.settingFor allow requirement fun _ => True))
  (course : Course allow requirement loader history state before)
  (busy : state.isSettled = false)

include known course

theorem listsState : inv.ListsState state :=
  Turns.listsState course.reaches.isFair (fun _ => trivial) known course.reaches.turns

include busy

/-- Every step of a run lowers the cost. -/
theorem cost_lt (steps : state.step before = (.ok next, after)) :
    inv.cost next < inv.cost state := by
  have fair := course.reaches.isFair
  have lists := course.listsState known
  have order := course.inOrder
  rcases State.step_cases steps with ⟨task, rest, work, rfl, _⟩ | ⟨work, loads, _⟩
  · obtain ⟨valid, consistent, justified⟩ := order.takes work
    have listed := lists.work (work ▸ List.mem_cons_self)
    have lists : inv.ListsState { state with work := rest } :=
      lists.requeue rfl (work ▸ List.subset_cons_self ..)
    have does := State.cost_perform_lt fair (fun _ => trivial) known.world valid justified lists
      listed consistent
    rw [Inventory.cost_eq_add work]
    exact does
  · have wanted : 0 < state.wanted.length := by
      refine List.length_pos_iff.2 fun none => ?_
      rw [State.isSettled, work, none] at busy
      cases busy
    have loaded := State.cost_loadWanted_le fair known.world order lists course.knows.symm loads
    omega

/-- As long as something is left to do, the cost is not zero. -/
theorem cost_pos : 0 < inv.cost state := by
  have lists := course.listsState known
  cases work : state.work with
  | cons task rest =>
    have mem : task ∈ state.work := work ▸ List.mem_cons_self
    have positive := inv.taskCost_pos state task
    have less : inv.taskCost state task ≤ (state.work.map (inv.taskCost state)).sum :=
      List.le_sum_of_mem (List.mem_map_of_mem mem)
    unfold Inventory.cost
    omega
  | nil =>
    cases wanted : state.wanted with
    | nil =>
      rw [State.isSettled, work, wanted] at busy
      cases busy
    | cons name rest =>
      obtain ⟨parked, status⟩ :=
        course.inOrder.queued.wanted.1 (wanted ▸ List.mem_cons_self : name ∈ state.wanted)
      have less : inv.classCost (state.status? name) ≤
          (inv.classes.map fun name => inv.classCost (state.status? name)).sum :=
        List.le_sum_of_mem (List.mem_map_of_mem (lists.table status))
      have positive : 0 < inv.classCost (state.status? name) := by
        rw [status]
        show 0 < 3 * inv.unit + 1 + inv.parkedCost parked + inv.methodsCost none
        omega
      unfold Inventory.cost
      omega

end

/-- A run comes to its end after no more steps than it costs. -/
theorem ends (known : inv.ListsSetting (loader.settingFor allow requirement fun _ => True))
    (course : Course allow requirement loader history state before) :
    ∃ count ≤ inv.cost state, state.Ends count before := by
  induction cost : inv.cost state using Nat.strong_induction_on
    generalizing history state before with
  | _ bound ih =>
    subst cost
    cases settled : state.isSettled with
    | true => exact ⟨0, Nat.zero_le _, .settled settled⟩
    | false =>
      cases stepped : state.step before with
      | mk result later =>
        cases result with
        | error => exact ⟨1, course.cost_pos known settled, .fails settled stepped⟩
        | ok next =>
          have less := course.cost_lt known settled stepped
          obtain ⟨count, few, ends⟩ := ih _ less (course.step settled stepped) rfl
          exact ⟨count + 1, by omega, .step settled stepped ends⟩

end Course

end ClassLinker
