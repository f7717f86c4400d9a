import ClassLinker.Proofs.Branching
import ClassLinker.Proofs.Leaves
import ClassLinker.Proofs.Monotonicity

/-!
# Sums of requirements

Requirements with `+` and `Requirement.nothing` are a monoid, although sums are kept flat, and what
is queued for a sum is what is queued for its operands, one after the other.

* `State.require` works through a requirement with a stack of what is inside it, each entry together
  with whether it is below an optional requirement, and a run starts by it (`State.start_eq`);
* `Requirement.Interprets` describes the tasks of a requirement: those of its atoms from left to
  right, an atom being what is neither empty nor made of other requirements;
* `Requirement.require_exact` puts the laws together.
-/

namespace ClassLinker

namespace Requirement

variable {requirement first second third atom : Requirement} {flag : Bool}

/-! ### The monoid -/

theorem add_eq_every (left : first ≠ nothing) (right : second ≠ nothing) :
    first + second = every (first.parts ++ second.parts) := by
  rcases add_cases first second with ⟨empty, -⟩ | ⟨-, empty⟩ | same
  · exact absurd empty left
  · exact absurd empty right
  · exact same

/-- Sums are associative: wherever the parentheses are, the parts of the operands are joined. -/
theorem add_assoc (first second third : Requirement) :
    first + second + third = first + (second + third) := by
  by_cases left : first = nothing
  · rw [left, nothing_add, nothing_add]
  · by_cases middle : second = nothing
    · rw [middle, nothing_add, add_nothing]
    · by_cases right : third = nothing
      · rw [right, add_nothing, add_nothing]
      · rw [add_eq_every left middle, add_eq_every middle right, add_eq_every (by simp) right,
          add_eq_every left (by simp)]
        exact congrArg every (List.append_assoc ..)

/-! ### Requirements as trees -/

mutual

/-- The number of requirements that a requirement is made of, itself included. -/
def count : Requirement → Nat
  | optional inner => count inner + 1
  | every all => countAll all + 1
  | _ => 1

/-- The number of requirements that several are made of. -/
def countAll : List Requirement → Nat
  | [] => 0
  | requirement :: rest => count requirement + countAll rest

end

theorem countAll_eq_sum (all : List Requirement) : countAll all = (all.map count).sum := by
  induction all with
  | nil => rfl
  | cons requirement rest ih => rw [countAll, ih, List.map_cons, List.sum_cons]

/-- The requirements directly inside a requirement. -/
def inside : Requirement → List Requirement
  | optional inner => [inner]
  | every all => all
  | _ => []

theorem sum_inside_lt (requirement : Requirement) :
    (requirement.inside.map count).sum < requirement.count := by
  cases requirement with
  | every all =>
    rw [inside, count, countAll_eq_sum]
    exact Nat.lt_succ_self _
  | _ => simp [inside, count]

/-- Requirements with those directly inside. -/
def branching : Branching Requirement where
  below := inside
  size := count
  smaller := sum_inside_lt

/-- Tells whether the requirement is an optional one. -/
def isOptional : Requirement → Bool
  | optional _ => true
  | _ => false

/-- The requirements directly inside, each with whether it is optional: what is inside an optional
requirement is, and everything else is if the whole is. -/
def flaggedInside : Bool × Requirement → List (Bool × Requirement)
  | (_, optional inner) => [(true, inner)]
  | (flag, every all) => all.map (flag, ·)
  | _ => []

theorem flaggedInside_eq (flag : Bool) (requirement : Requirement) :
    flaggedInside (flag, requirement) =
      requirement.inside.map (flag || requirement.isOptional, ·) := by
  cases requirement <;> simp [flaggedInside, inside, isOptional]

/-- Requirements with those directly inside, all of which know whether they are optional. -/
def flaggedBranching : Branching (Bool × Requirement) where
  below := flaggedInside
  size entry := entry.2.count
  smaller := fun (flag, requirement) => by
    rw [flaggedInside_eq, List.map_map]
    exact sum_inside_lt requirement

/-- A walk through a requirement comes to its tasks, from left to right. -/
theorem tasks_eq_flatMap (entry : Bool × Requirement) :
    entry.2.tasks entry.1 = (flaggedBranching.visited entry).flatMap fun entry =>
      entry.2.leafTasks entry.1 := by
  induction entry using flaggedBranching.induct with
  | step entry ih =>
    obtain ⟨flag, requirement⟩ := entry
    rw [Branching.visited_eq, List.flatMap_cons, List.flatMap_assoc, ← List.flatMap_congr ih]
    cases requirement with
    | optional inner => exact (List.append_nil _).symm
    | every all =>
      show tasksOfAll flag all = (all.map (flag, ·)).flatMap fun entry => entry.2.tasks entry.1
      rw [List.flatMap_map, tasksOfAll_eq_flatMap]
    | _ => exact (List.append_nil _).symm

/-! ### What is below an optional requirement -/

/-- An optional requirement lies above the position. -/
def IsBelowOptional (requirement : Requirement) (path : List Nat) : Prop :=
  ∃ above inner, above <+: path ∧ above ≠ path ∧
    branching.at? requirement above = some (optional inner)

/-- Tells whether an optional requirement is met on the way to a position. -/
def meetsOptional (requirement : Requirement) : List Nat → Bool
  | [] => false
  | index :: path => requirement.isOptional ||
      requirement.inside[index]?.elim false fun inner => meetsOptional inner path

theorem isOptional_iff : requirement.isOptional = true ↔ ∃ inner, requirement = optional inner := by
  cases requirement <;> simp [isOptional]

theorem meetsOptional_iff {path : List Nat} :
    requirement.meetsOptional path = true ↔ requirement.IsBelowOptional path := by
  induction path generalizing requirement with
  | nil =>
    refine iff_of_false Bool.false_ne_true ?_
    rintro ⟨above, inner, within, proper, -⟩
    exact proper (List.prefix_nil.1 within)
  | cons index path ih =>
    rw [meetsOptional, Bool.or_eq_true, isOptional_iff]
    constructor
    · rintro (⟨inner, rfl⟩ | meets)
      · exact ⟨[], inner, List.nil_prefix, by simp, rfl⟩
      · cases found : requirement.inside[index]? with
        | none =>
          rw [found] at meets
          cases meets
        | some part =>
          rw [found] at meets
          obtain ⟨above, inner, within, proper, met⟩ := ih.1 meets
          exact ⟨index :: above, inner, (List.prefix_cons_inj index).2 within,
            by simpa using proper, Branching.at?_cons.2 ⟨part, found, met⟩⟩
    · rintro ⟨_ | ⟨first, above⟩, inner, starts, proper, met⟩
      · exact .inl ⟨inner, Option.some.inj met⟩
      · obtain ⟨rfl, within⟩ := List.cons_prefix_cons.1 starts
        obtain ⟨part, found, met⟩ := Branching.at?_cons.1 met
        have found : requirement.inside[first]? = some part := found
        rw [found]
        exact .inr (ih.2 ⟨above, inner, within, by simpa using proper, met⟩)

/-- Whether what is at a position is optional depends on what lies above it. -/
theorem flagged_at? (flag : Bool) (requirement : Requirement) (path : List Nat) :
    flaggedBranching.at? (flag, requirement) path =
      (branching.at? requirement path).map fun inner =>
        (flag || requirement.meetsOptional path, inner) := by
  induction path generalizing flag requirement with
  | nil => simp [Branching.at?, meetsOptional]
  | cons index path ih =>
    simp only [Branching.at?, meetsOptional]
    rw [show flaggedBranching.below (flag, requirement) = _ from flaggedInside_eq flag requirement,
      List.getElem?_map]
    show Option.bind (Option.map _ requirement.inside[index]?) _ =
      Option.map _ (requirement.inside[index]?.bind _)
    cases requirement.inside[index]? with
    | none => rfl
    | some inner => simp [ih, Bool.or_assoc]

/-! ### Atoms -/

/-- The requirement is neither empty nor made of others. -/
def IsAtom : Requirement → Prop
  | optional _ | every _ | nothing => False
  | _ => True

/-- The task of fulfilling a demand for a component. -/
def taskFor (asker : String) (cls : ClassName) (isOptional : Bool) (demand : Demand) : Task :=
  { cls, action := .fulfil demand, cause := .component asker, isOptional }

/-- The tasks of an atom, which may be optional. -/
inductive Queues : Requirement → Bool → List Task → Prop
  | module (asker cls flag) :
      Queues (.module asker cls) flag [taskFor asker cls flag (.use .module)]
  | instances (asker cls ctor flag) :
      Queues (.instances asker cls ctor) flag [taskFor asker cls flag (.use .instances),
        taskFor asker cls flag (.callDirect ⟨.constructor, ctor⟩)]
  | tests (asker cls flag) :
      Queues (.tests asker cls) flag [taskFor asker cls flag (.use .tests)]
  | typeData (asker cls flag) :
      Queues (.typeData asker cls) flag [taskFor asker cls flag (.use .typeData)]
  | staticField (asker cls name flag) :
      Queues (.staticField asker cls name) flag [taskFor asker cls flag (.use .staticFields)]
  | call (asker cls method flag) :
      Queues (.call asker cls method) flag [taskFor asker cls flag (.call method)]
  | callDirect (asker cls method flag) :
      Queues (.callDirect asker cls method) flag
        [taskFor asker cls flag (.callDirect ⟨.publicInstance, method⟩)]
  | callStatic (asker cls method flag) :
      Queues (.callStatic asker cls method) flag
        [taskFor asker cls flag (.callDirect ⟨.publicStatic, method⟩)]

theorem isAtom_iff : atom.IsAtom ↔ atom.leaf?.isSome = true := by
  cases atom <;> simp [IsAtom, leaf?]

theorem IsAtom.queues (isAtom : atom.IsAtom) (flag : Bool) :
    atom.Queues flag (atom.leafTasks flag) := by
  cases atom with
  | optional | every | nothing => exact isAtom.elim
  | _ => constructor

/-- The tasks are those of the atoms of the requirement from left to right, and those of an atom are
optional if and only if an optional requirement lies above it. -/
def Interprets (requirement : Requirement) (tasks : List Task) : Prop :=
  ∃ (atoms : List (List Nat)) (tasksAt : List Nat → List Task), atoms.Pairwise (· < ·) ∧
    (∀ path, path ∈ atoms ↔ ∃ atom, branching.at? requirement path = some atom ∧ atom.IsAtom) ∧
    (∀ path ∈ atoms, ∃ atom flag, branching.at? requirement path = some atom ∧
      (flag = true ↔ requirement.IsBelowOptional path) ∧ atom.Queues flag (tasksAt path)) ∧
    tasks = atoms.flatMap tasksAt

/-- Members that give nothing can be left out. -/
theorem flatMap_filter {α β : Type} (keep : α → Bool) {f : α → List β}
    (idle : ∀ x, keep x = false → f x = []) (xs : List α) :
    (xs.filter keep).flatMap f = xs.flatMap f := by
  induction xs with
  | nil => rfl
  | cons x xs ih =>
    cases kept : keep x with
    | true => rw [List.filter_cons_of_pos kept, List.flatMap_cons, List.flatMap_cons, ih]
    | false =>
      rw [List.filter_cons_of_neg (by simp [kept]), List.flatMap_cons, idle x kept, ih]
      rfl

/-- What is queued for a requirement are the tasks of its atoms. -/
theorem interprets_tasks (requirement : Requirement) :
    requirement.Interprets (requirement.tasks false) := by
  obtain ⟨positions, sorted, valid, mapped⟩ :=
    flaggedBranching.isPreorder_visited (false, requirement)
  let tasksAt : List Nat → List Task := fun path =>
    (flaggedBranching.at? (false, requirement) path).elim [] fun entry => entry.2.leafTasks entry.1
  let isAtom : List Nat → Bool := fun path =>
    ((branching.at? requirement path).bind leaf?).isSome
  have mem_atoms (path : List Nat) : path ∈ positions.filter isAtom ↔
      ∃ atom, branching.at? requirement path = some atom ∧ atom.IsAtom := by
    rw [List.mem_filter, valid, flagged_at?]
    cases found : branching.at? requirement path <;> simp [isAtom, found, isAtom_iff]
  refine ⟨positions.filter isAtom, tasksAt, sorted.filter _, mem_atoms, ?_, ?_⟩
  · intro path mem
    obtain ⟨atom, found, atomic⟩ := (mem_atoms path).1 mem
    refine ⟨atom, requirement.meetsOptional path, found, meetsOptional_iff, ?_⟩
    have tasks : tasksAt path = atom.leafTasks (requirement.meetsOptional path) := by
      simp [tasksAt, flagged_at?, found]
    rw [tasks]
    exact atomic.queues _
  · -- The other positions have no tasks, so all positions together have those of the atoms.
    have idle (path : List Nat) (other : isAtom path = false) : tasksAt path = [] := by
      simp only [tasksAt, flagged_at?]
      cases found : branching.at? requirement path with
      | none => rfl
      | some inner =>
        have noLeaf : inner.leaf? = none := by simpa [isAtom, found] using other
        simp [leafTasks, noLeaf]
    rw [flatMap_filter isAtom idle]
    calc requirement.tasks false
      _ = ((flaggedBranching.visited (false, requirement)).map some).flatMap fun found =>
          found.elim [] fun entry => entry.2.leafTasks entry.1 := by
        rw [List.flatMap_map]
        exact tasks_eq_flatMap (false, requirement)
      _ = positions.flatMap tasksAt := by rw [← mapped, List.flatMap_map]

end Requirement

/-! ### Working through a requirement -/

namespace State

/-- Queues the tasks of a requirement: takes the top entry from a stack, queues its tasks if it is
an atom and otherwise puts what is inside it on the stack, and goes on until the stack is empty. -/
def require (state : State) (requirement : Requirement) : State :=
  Requirement.flaggedBranching.walk (fun state entry => state.addTasks (entry.2.leafTasks entry.1))
    state [(false, requirement)]

@[simp] theorem addTasks_nil (state : State) : state.addTasks [] = state := by
  rw [addTasks, List.append_nil]

@[simp] theorem addTasks_addTasks (state : State) (first second : List Task) :
    (state.addTasks first).addTasks second = state.addTasks (first ++ second) :=
  congrArg (fun work => { state with work }) (List.append_assoc ..)

theorem require_eq (state : State) (requirement : Requirement) :
    state.require requirement = state.addTasks (requirement.tasks false) := by
  rw [require, Branching.walk_eq, List.flatMap_singleton,
    Requirement.tasks_eq_flatMap (false, requirement)]
  generalize Requirement.flaggedBranching.visited (false, requirement) = entries
  induction entries generalizing state with
  | nil => exact state.addTasks_nil.symm
  | cons entry entries ih => rw [List.foldl_cons, ih, List.flatMap_cons, addTasks_addTasks]

/-- A run starts by queueing its requirement, and then its entry points. -/
theorem start_eq (allowForwarders : Bool) (root : ClassSummary) (requirement : Requirement)
    (entryPoints : List ClassName) :
    start allowForwarders root requirement entryPoints =
      ((start allowForwarders root .nothing []).require requirement).addTasks
        (entryPoints.map fun cls => { cls, action := .enter, cause := .exports }) := by
  have blank : start allowForwarders root .nothing [] =
      (({ allowForwarders } : State).receive .object (some root)).linkAvailable :=
    addTasks_nil _
  rw [require_eq, addTasks_addTasks, blank]
  rfl

end State

/-- Sums of requirements are associative, with the empty requirement as identity. A run starts by
queueing its requirement: the tasks of the atoms from left to right, optional below optional
requirements. So the tasks of a sum are those of its operands in turn, and nothing is queued exactly
for what counts as empty. -/
theorem Requirement.require_exact (first second third : Requirement) (state : State) :
    first + second + third = first + (second + third) ∧
      nothing + first = first ∧ first + nothing = first ∧
      (∀ allowForwarders root entryPoints, State.start allowForwarders root first entryPoints =
        ((State.start allowForwarders root .nothing []).require first).addTasks
          (entryPoints.map fun cls => { cls, action := .enter, cause := .exports })) ∧
      (∃ tasks, state.require first = state.addTasks tasks ∧ first.Interprets tasks) ∧
      state.require (first + second) = (state.require first).require second ∧
      (first.isEmpty = true ↔ state.require first = state) := by
  refine ⟨add_assoc .., nothing_add first, add_nothing first,
    fun allowForwarders root entryPoints => State.start_eq allowForwarders root first entryPoints,
    ⟨_, state.require_eq first, interprets_tasks first⟩, ?_, ?_⟩
  · rw [State.require_eq, State.require_eq, State.require_eq, State.addTasks_addTasks, tasks_add]
  · rw [State.require_eq]
    constructor
    · intro empty
      rw [tasks_of_isEmpty empty, State.addTasks_nil]
    · intro same
      have same : state.work ++ first.tasks false = state.work := congrArg State.work same
      exact isEmpty_of_tasks (List.append_right_eq_self.1 same)

end ClassLinker
