import ClassLinker.Proofs.Absorption
import ClassLinker.Proofs.Budget
import ClassLinker.Proofs.Leaves
import ClassLinker.Proofs.MirroredRuns
import ClassLinker.Proofs.Monotonicity

/-!
# Requirements that are repeated

Requiring again what is required already changes nothing. The run that has more to do goes along
with the other one, and makes additional steps for the tasks that are repeated, at a time when the
other run absorbs them: they wait, or they have been done, whatever else has happened since.

* `State.IsEchoedBy`: the state of one run against that of the other, which repeats some tasks;
* `State.IsEchoedBy.perform` and `State.IsEchoedBy.loadWanted`: a step of the run that has more to
  do, with or without one of the other run;
* `analyze_repeated`: both analyses are the same.
-/

namespace ClassLinker

variable {setting : Setting} {state next echo : State} {task : Task} {rest : List Task}
variable {requirement extra : Requirement} {loader before after : Loader} {allow : Bool}

namespace State

/-- What is absorbed does not depend on the list of tasks. -/
theorem Absorbs.withWork (absorbs : state.Absorbs task) (rest : List Task) :
    ({ state with work := rest } : State).Absorbs task := by
  cases absorbs with
  | waits parked => exact .waits parked
  | dropped failed => exact .dropped failed
  | absent found absent reported => exact .absent found absent reported
  | @done cls demand found present action honours =>
    refine .done found present action ?_
    cases demand with
    | use use => cases use <;> exact honours
    | call => exact honours
    | callDirect key =>
      simp only [Honours] at honours ⊢
      split at honours
      · rename_i space
        rw [if_pos space]
        obtain ⟨owner, errors, resolves, called, reported⟩ := honours
        refine ⟨owner, errors, ?_, ⟨called.caller, called.reached⟩, reported⟩
        cases resolves with
        | inherited implementor => exact .inherited implementor
        | default lacks owners bare => exact .default lacks owners bare
        | missing lacks => exact .missing ⟨lacks.lacks, lacks.owners⟩
      · rename_i space
        rw [if_neg space]
        exact ⟨honours.caller, honours.reached⟩

/-- The other state is the same, except that tasks which this one absorbs are repeated there, and
errors. -/
def IsEchoedBy (state echo : State) : Prop :=
  state.Mirrors (.repeats Task.IsRepeatable state.Absorbs) echo

namespace IsEchoedBy

variable (echoed : state.IsEchoedBy echo)

include echoed

theorem work_eq_nil (idle : echo.work = []) : state.work = [] := by
  have work : Repeats Task.IsRepeatable state.Absorbs state.work echo.work := echoed.work
  rw [idle] at work
  exact work.eq_nil

/-- If the echo has nothing else to do, both are settled, or neither is. -/
theorem isSettled_eq (idle : echo.work = []) : state.isSettled = echo.isSettled := by
  rw [isSettled, isSettled, idle, echoed.work_eq_nil idle, echoed.wanted]

/-- The first task of the echo is a repetition, or it is the first task of the state too. -/
theorem perform (fair : setting.IsFair) (full : ∀ fact, setting.facts fact)
    (order : state.InOrder setting) (work : echo.work = task :: rest) :
    state.IsEchoedBy ({ echo with work := rest }.perform task) ∨
      ∃ others, state.work = task :: others ∧
        ({ state with work := others }.perform task).IsEchoedBy
          ({ echo with work := rest }.perform task) := by
  have repeats : Repeats Task.IsRepeatable state.Absorbs state.work echo.work := echoed.work
  rw [work] at repeats
  generalize listed : state.work = tasks at repeats
  cases repeats with
  | again may seen repeats =>
    left
    rw [← listed] at repeats
    have both : (state.perform task).Mirrors (.repeats Task.IsRepeatable state.Absorbs)
        ({ echo with work := rest }.perform task) :=
      Mirrors.perform_repeats (echoed.of_work repeats) task
    exact (seen.mirrors fair order.valid may _).trans_repeats both
  | @keep _ _ others _ repeats =>
    right
    refine ⟨others, rfl, ?_⟩
    obtain ⟨valid, consistent, justified⟩ := order.takes listed
    refine Mirrors.perform_repeats (echoed.of_work (repeats.mono fun earlier may seen => ?_)) task
    rcases seen with seen | rfl
    · exact (seen.withWork others).perform fair valid consistent justified may
    · exact absorbs_perform fair full valid consistent justified may

/-- If the echo has nothing else to do, both load the same classes. -/
theorem loadWanted (idle : echo.work = []) (loader : Loader) :
    (echo.loadWanted loader).2 = (state.loadWanted loader).2 ∧
      ((∃ error, (state.loadWanted loader).1 = .error error ∧
          (echo.loadWanted loader).1 = .error error) ∨
        ∃ next next', (state.loadWanted loader).1 = .ok next ∧
          (echo.loadWanted loader).1 = .ok next' ∧ next.IsEchoedBy next') := by
  have bare : state.Mirrors (.repeats Task.IsRepeatable fun _ => False) echo := by
    have none : Repeats Task.IsRepeatable (fun _ => False) state.work echo.work := by
      rw [idle, echoed.work_eq_nil idle]
      exact .nil
    exact echoed.of_work none
  obtain ⟨outcome, same⟩ := bare.loadWanted loader
  refine ⟨same, ?_⟩
  generalize (state.loadWanted loader).1 = first, (echo.loadWanted loader).1 = second at outcome
  cases outcome with
  | error error => exact .inl ⟨error, rfl, rfl⟩
  | @ok next next' mirrors =>
    have work : Repeats Task.IsRepeatable (fun _ => False) next.work next'.work := mirrors.work
    exact .inr ⟨next, next', rfl, rfl, mirrors.of_work (work.mono fun _ _ none => none.elim)⟩

/-- The results are the same. -/
theorem result_eq : echo.result = state.result := by
  have errors : Repeats (fun _ => True) (fun _ => False) state.checkExports.errors
      echo.checkExports.errors := echoed.checkExports.errors
  show Analysis.ofErrors _ _ = Analysis.ofErrors _ _
  rw [Analysis.ofErrors, Analysis.ofErrors, errors.eraseDups_eq]
  exact congrArg (Analysis.mk · _) echoed.classes_result

end IsEchoedBy

/-! ### Runs -/

theorem settle_of_isSettled (settled : state.isSettled = true) (steps : Nat) (loader : Loader) :
    state.settle steps loader = (.ok state, loader) := by
  cases steps <;> simp [settle, settled]

theorem step_of_idle (idle : state.work = []) (loader : Loader) :
    state.step loader = state.loadWanted loader := by
  simp only [step, idle]

theorem settle_succ (busy : state.isSettled = false)
    (steps : state.step before = (.ok next, after)) (less : Nat) :
    state.settle (less + 1) before = next.settle less after := by
  simp only [settle, busy, steps, Bool.false_eq_true, if_false]

/-- A run that is allowed the steps that it takes makes the next one. -/
theorem Ends.settle_step {count allowed : Nat} (ends : state.Ends count before)
    (enough : count ≤ allowed) (busy : state.isSettled = false)
    (steps : state.step before = (.ok next, after)) :
    ∃ fewer less, next.Ends fewer after ∧ fewer ≤ less ∧
      state.settle allowed before = next.settle less after := by
  cases ends with
  | settled settled => rw [busy] at settled; cases settled
  | fails _ fails => rw [steps] at fails; cases fails
  | @step fewer _ _ _ _ _ steps' ends =>
    obtain ⟨rfl, rfl⟩ : _ = next ∧ _ = after := by
      have same := steps'.symm.trans steps
      simpa using same
    obtain ⟨less, rfl⟩ := Nat.exists_eq_add_of_le enough
    refine ⟨fewer, fewer + less, ends, Nat.le_add_right .., ?_⟩
    rw [Nat.add_right_comm]
    exact settle_succ busy steps _

/-- So it fails if the next step does. -/
theorem Ends.settle_fails {count allowed : Nat} {error : LoadError}
    (ends : state.Ends count before) (enough : count ≤ allowed) (busy : state.isSettled = false)
    (fails : state.step before = (.error error, after)) :
    state.settle allowed before = (.error (.load error), after) := by
  have some_step : 0 < allowed := by
    cases ends with
    | settled settled => rw [busy] at settled; cases settled
    | fails => exact enough
    | step => exact Nat.lt_of_lt_of_le (Nat.succ_pos _) enough
  obtain ⟨less, rfl⟩ := Nat.exists_eq_add_of_le' some_step
  simp [settle, busy, fails]

namespace IsEchoedBy

/-- If the echo has nothing else to do and cannot load a class, neither can the state. -/
theorem step_of_error (echoed : state.IsEchoedBy echo) (idle : echo.work = []) {error : LoadError}
    (fails : echo.step before = (.error error, after)) :
    state.step before = (.error error, after) := by
  rw [step_of_idle idle] at fails
  rw [step_of_idle (echoed.work_eq_nil idle)]
  obtain ⟨later, ⟨error', first, second⟩ | ⟨_, _, _, second, _⟩⟩ := echoed.loadWanted idle before
  · rw [fails] at later second
    cases second
    exact Prod.ext first later.symm
  · rw [fails] at second
    cases second

/-- If the echo has nothing else to do and loads what is wanted, the state does the same. -/
theorem step_of_ok (echoed : state.IsEchoedBy echo) (idle : echo.work = [])
    (steps : echo.step before = (.ok next, after)) :
    ∃ loaded, state.step before = (.ok loaded, after) ∧ loaded.IsEchoedBy next := by
  rw [step_of_idle idle] at steps
  rw [step_of_idle (echoed.work_eq_nil idle)]
  obtain ⟨later, ⟨_, _, failed⟩ | ⟨loaded, _, first, second, both⟩⟩ := echoed.loadWanted idle before
  · rw [steps] at failed
    cases failed
  · rw [steps] at later second
    cases second
    exact ⟨loaded, Prod.ext first later.symm, both⟩

end IsEchoedBy

/-- Both runs come to the same end if they are allowed the steps that they take. -/
theorem IsEchoedBy.settle_eq (fair : setting.IsFair) (full : ∀ fact, setting.facts fact)
    (order : state.InOrder setting) (world : setting.world = loader.knows)
    (echoed : state.IsEchoedBy echo) {count count' allowed allowed' : Nat}
    (ends : state.Ends count loader) (enough : count ≤ allowed)
    (ends' : echo.Ends count' loader) (enough' : count' ≤ allowed') :
    (echo.settle allowed' loader).1.map State.result =
        (state.settle allowed loader).1.map State.result ∧
      (echo.settle allowed' loader).2 = (state.settle allowed loader).2 := by
  -- The echo makes all the steps that the state makes, and more, so its run is the one to follow.
  induction ends' generalizing state count allowed allowed' with
  | @settled echo loader settled =>
    have idle : echo.work = [] := by simpa using (Bool.and_eq_true_iff.1 settled).1
    rw [settle_of_isSettled settled,
      settle_of_isSettled ((echoed.isSettled_eq idle).trans settled)]
    exact ⟨congrArg Except.ok echoed.result_eq, rfl⟩
  | @fails echo before after error busy fails =>
    have idle : echo.work = [] := by
      cases work : echo.work with
      | nil => rfl
      | cons task rest => simp [step, work] at fails
    rw [(State.Ends.fails busy fails).settle_fails enough' busy fails,
      ends.settle_fails enough ((echoed.isSettled_eq idle).trans busy)
        (echoed.step_of_error idle fails)]
    exact ⟨rfl, rfl⟩
  | @step later echo next before after busy steps rest ih =>
    obtain ⟨less', rfl⟩ := Nat.exists_eq_add_of_le enough'
    rw [Nat.add_right_comm, settle_succ busy steps]
    have enough' : later ≤ later + less' := Nat.le_add_right ..
    cases work : echo.work with
    | cons task others =>
      obtain ⟨rfl, rfl⟩ : ({ echo with work := others } : State).perform task = next ∧
          before = after := by
        simpa [step, work] using steps
      rcases echoed.perform fair full order work with again | ⟨others', work', both⟩
      · -- Only the echo does it: the state, which absorbs it, stays where it is.
        exact ih order world again ends enough enough'
      · -- Both runs do the task.
        have busy' : state.isSettled = false := by simp [isSettled, work']
        have steps' : state.step before =
            (.ok (({ state with work := others' } : State).perform task), before) := by
          simp only [step, work']
        obtain ⟨fewer, less, ends, enough, same⟩ := ends.settle_step enough busy' steps'
        rw [same]
        exact ih (order.perform fair work') world both ends enough enough'
    | nil =>
      -- Nothing is left to repeat, so both load the classes that are wanted in the same step.
      have busy' := (echoed.isSettled_eq work).trans busy
      obtain ⟨_, steps', both⟩ := echoed.step_of_ok work steps
      obtain ⟨fewer, less, ends, enough, same⟩ := ends.settle_step enough busy' steps'
      obtain ⟨order', loads⟩ := order.step fair world steps'
      rw [same]
      exact ih order' (world.trans loads.knows.symm) both ends enough enough'

end State

/-! ### Analyses -/

namespace Requirement

variable {leaf : Requirement} {isOptional : Bool}

/-- The tasks of a leaf may be repeated, unless it is a direct call of a reflective proxy. -/
theorem isRepeatable_of_mem_leafTasks (mem : task ∈ leaf.leafTasks isOptional)
    (direct : ∀ {asker cls method}, leaf = .callDirect asker cls method →
      method.isProxy = false) : task.IsRepeatable := by
  unfold leafTasks at mem
  split at mem
  · rename_i asker cls demands asks
    obtain ⟨demand, mem, rfl⟩ := List.mem_map.1 mem
    refine ⟨demand, rfl, ?_⟩
    rintro method rfl
    cases leaf with
    | optional | every | nothing => cases asks
    | callDirect =>
      cases asks
      cases List.mem_singleton.1 mem
      exact direct rfl
    | _ =>
      cases asks
      simp [Demand.newInstance] at mem
  · cases mem

/-- Where nothing is required, nothing is required again. -/
theorem isEmpty_add_eq (again : extra.tasks false ⊆ requirement.tasks false) :
    (requirement + extra).isEmpty = requirement.isEmpty := by
  cases empty : requirement.isEmpty with
  | false =>
    refine Bool.eq_false_iff.2 fun both => ?_
    rw [isEmpty_of_add both] at empty
    cases empty
  | true =>
    have idle : requirement.tasks false = [] := tasks_of_isEmpty empty
    rw [idle] at again
    refine @isEmpty_of_tasks false _ ?_
    rw [tasks_add, idle, List.subset_nil.1 again]
    rfl

end Requirement

/-- Requiring again what is required already, with the same optionality, in whatever order and
however often, changes nothing: neither what is known of the classes nor any order in which it is
listed, nor the errors, nor what the loader is asked for. The exception are direct calls of
reflective proxies. -/
theorem analyze_repeated
    (leaves : ∀ {isOptional leaf},
      extra.HasLeaf isOptional leaf → requirement.HasLeaf isOptional leaf)
    (direct : ∀ {isOptional asker cls method},
      extra.HasLeaf isOptional (.callDirect asker cls method) → method.isProxy = false)
    (allow : Bool) (loader : Loader) :
    analyze allow (requirement + extra) loader = analyze allow requirement loader := by
  have again : extra.tasks false ⊆ requirement.tasks false := by
    intro task mem
    obtain ⟨isOptional, leaf, has, mem⟩ := Requirement.mem_tasks_iff.1 mem
    exact Requirement.mem_tasks_iff.2 ⟨isOptional, leaf, leaves has, mem⟩
  have may : ∀ task ∈ extra.tasks false, task.IsRepeatable := by
    intro task mem
    obtain ⟨isOptional, leaf, has, mem⟩ := Requirement.mem_tasks_iff.1 mem
    refine Requirement.isRepeatable_of_mem_leafTasks mem ?_
    rintro asker cls method rfl
    exact direct has
  unfold analyze
  simp only [Requirement.isEmpty_add_eq again]
  split
  · rfl
  · cases loads : loader.loadSummary .object with
    | mk answer later =>
      rcases answer with _ | _ | root
      · rfl
      · rfl
      · simp only
        split
        · rfl
        · rename_i proper
          have isRoot : root.isRoot = true := by simpa using proper
          let start := State.start allow root requirement loader.entryPoints
          let echo := State.start allow root (requirement + extra) loader.entryPoints
          have course : Course allow requirement loader _ start later := .start loads isRoot
          have echoed : start.IsEchoedBy echo :=
            { State.Mirrors.refl_repeats start with
              work := by
                show Repeats _ _ (_ ++ (_ ++ _)) (_ ++ (_ ++ _))
                rw [Requirement.tasks_add]
                exact (Repeats.refl _ _).append
                  (((Repeats.refl _ _).repeat_mem again may).extend _) }
          obtain ⟨count, enough, ends⟩ :=
            @exists_ends_start root allow requirement loader later loads isRoot
          obtain ⟨count', enough', ends'⟩ :=
            @exists_ends_start root allow (requirement + extra) loader later loads isRoot
          obtain ⟨result, loader_eq⟩ := echoed.settle_eq course.reaches.isFair (fun _ => trivial)
            course.inOrder course.knows.symm ends enough ends' enough'
          exact Prod.ext result loader_eq

/-- A bridge is added, and a class and a method are missing. Requiring all this again, in another
order and partly more than once, gives the same result. -/
theorem analyze_repeated_belowBridge :
    let once : Requirement := .every [.instances "test" ⟨"A"⟩ .defaultConstructor,
      .callDirect "test" ⟨"A"⟩ ⟨"foo__V"⟩, .optional (.tests "test" ⟨"X"⟩),
      .typeData "test" ⟨"X"⟩, .call "test" ⟨"A"⟩ ⟨"bar__V"⟩]
    let again : Requirement := .every [.typeData "test" ⟨"X"⟩,
      .optional (.optional (.tests "test" ⟨"X"⟩)), .callDirect "test" ⟨"A"⟩ ⟨"foo__V"⟩,
      .callDirect "test" ⟨"A"⟩ ⟨"foo__V"⟩]
    let loader := Loader.ofDecls (belowBridge [⟨"J"⟩])
    ∃ analysis after, analyze true once loader = (.ok analysis, after) ∧
      analyze true (once + again) loader = (.ok analysis, after) ∧
      analysis.errors = [.missingClass ⟨"X"⟩ (.component "test"),
        .missingMethod ⟨⟨"A"⟩, .publicInstance, ⟨"bar__V"⟩⟩ (.component "test")] ∧
      (analysis.method? ⟨⟨"A"⟩, .publicInstance, ⟨"foo__V"⟩⟩).map
        (fun entry => (entry.forwarder, entry.callers)) =
          some (some (.bridge ⟨"J"⟩), [.component "test"]) := by
  intro once again loader
  have told : (analyze true once loader).1.toOption.map (fun analysis => (analysis.errors,
      (analysis.method? ⟨⟨"A"⟩, .publicInstance, ⟨"foo__V"⟩⟩).map
        fun entry => (entry.forwarder, entry.callers))) =
      some ([.missingClass ⟨"X"⟩ (.component "test"),
        .missingMethod ⟨⟨"A"⟩, .publicInstance, ⟨"bar__V"⟩⟩ (.component "test")],
        some (some (.bridge ⟨"J"⟩), [.component "test"])) := by decide +kernel
  obtain ⟨analysis, after, ends, seen⟩ := exists_of_toOption_map told
  obtain ⟨errors, bridge⟩ := Prod.mk.inj seen
  -- The leaves of the repetition, one by one.
  have leaves : ∀ {isOptional leaf}, again.HasLeaf isOptional leaf →
      isOptional = false ∧ leaf = .typeData "test" ⟨"X"⟩ ∨
        isOptional = true ∧ leaf = .tests "test" ⟨"X"⟩ ∨
          isOptional = false ∧ leaf = .callDirect "test" ⟨"A"⟩ ⟨"foo__V"⟩ := by
    intro isOptional leaf has
    obtain ⟨part, mem, has⟩ := Requirement.hasLeaf_every.1 has
    simp only [List.mem_cons, List.not_mem_nil, or_false] at mem
    rcases mem with rfl | rfl | rfl | rfl
    · exact .inl ((Requirement.hasLeaf_self rfl).1 has)
    · obtain ⟨optional, below, has⟩ := Requirement.hasLeaf_optional.1 has
      obtain ⟨_, below, has⟩ := Requirement.hasLeaf_optional.1 has
      exact .inr (.inl ⟨optional, ((Requirement.hasLeaf_self rfl).1 has).2⟩)
    · exact .inr (.inr ((Requirement.hasLeaf_self rfl).1 has))
    · exact .inr (.inr ((Requirement.hasLeaf_self rfl).1 has))
  refine ⟨analysis, after, ends, ?_, errors, bridge⟩
  rw [analyze_repeated ?_ ?_ true loader, ends]
  · intro isOptional leaf has
    rcases leaves has with ⟨rfl, rfl⟩ | ⟨rfl, rfl⟩ | ⟨rfl, rfl⟩
    · exact .every (by simp) (.self rfl)
    · exact .every (by simp) (.optional (.self rfl))
    · exact .every (by simp) (.self rfl)
  · intro isOptional asker cls method has
    rcases leaves has with ⟨_, same⟩ | ⟨_, same⟩ | ⟨_, same⟩
    · cases same
    · cases same
    · cases same
      decide

/-- A class with a method that can be called reflectively, and a class below it. -/
def reflectiveBelow : List ClassDecl :=
  let init : List MethodDecl := [.plain .constructor .defaultConstructor (some .skip)]
  [.ofMethods .object .plain [] [],
    .ofMethods ⟨"A"⟩ .plain [.object] (.plain .publicInstance ⟨"foo__V"⟩ (some .skip) :: init),
    .ofMethods ⟨"B"⟩ .plain [⟨"A"⟩] init]

/-- A direct call of a reflective proxy may be made before the class gets a proxy of its own. If it
is repeated, it is a caller of that one too. -/
theorem not_repeated_reflectiveBelow :
    let again : Requirement := .callDirect "direct" ⟨"B"⟩ ⟨"foo__"⟩
    let once : Requirement := .every [.instances "test" ⟨"A"⟩ .defaultConstructor,
      .call "test" ⟨"A"⟩ ⟨"foo__"⟩, again, .instances "test" ⟨"B"⟩ .defaultConstructor]
    (∀ {isOptional leaf}, again.HasLeaf isOptional leaf → once.HasLeaf isOptional leaf) ∧
      analyze true (once + again) (Loader.ofDecls reflectiveBelow) ≠
        analyze true once (Loader.ofDecls reflectiveBelow) := by
  intro again once
  refine ⟨fun has => ?_, fun same => ?_⟩
  · obtain ⟨rfl, rfl⟩ := (Requirement.hasLeaf_self rfl).1 has
    exact .every (by simp) (.self rfl)
  · have told : ((analyze true once (Loader.ofDecls reflectiveBelow)).1.toOption.bind
        fun analysis => analysis.method? ⟨⟨"B"⟩, .publicInstance, ⟨"foo__"⟩⟩).map
          MethodRecord.callers = some [.component "test"] := by decide +kernel
    have told' : ((analyze true (once + again) (Loader.ofDecls reflectiveBelow)).1.toOption.bind
        fun analysis => analysis.method? ⟨⟨"B"⟩, .publicInstance, ⟨"foo__"⟩⟩).map
          MethodRecord.callers = some [.component "test", .component "direct"] := by decide +kernel
    rw [same, told] at told'
    exact absurd told' (by decide)

end ClassLinker
