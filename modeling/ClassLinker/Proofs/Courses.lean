import ClassLinker.Proofs.Turns

/-!
# The course of a run

`Course` follows a run over the classes of a loader from its start, one `State.step` after the
other: it says which states and loaders the run comes to, and with what `History` of summaries asked
for and tasks queued and done. The history is kept on the side, so every run has exactly one.

* `Loader.Reaches` is about the states within steps too, and `Course.reaches` and `Course.inOrder`
  about those between them;
* `Course.loader_eq`: the loader has been asked for just the summaries in the history;
* `Course.settle` and `Course.walk`: a run that goes on, to its end or for some steps, follows its
  course;
* `analyze_course`: an analysis that is not refused, and has something to do, is the result of a
  course that has come to its end.
-/

namespace ClassLinker

variable {setting : Setting} {state next : State} {allow : Bool} {requirement : Requirement}
variable {loader before after : Loader}

/-- What a run has done so far: the classes whose summaries it has asked the loader for, the tasks
that it has put on its list for the first time, and those that it has done, each in order. -/
structure History where
  asked : List ClassName
  queued : List Task
  applied : List Task

/-- The tasks that are done when a task is taken off the list: the task, if its class is linked. Any
other is parked, to come back to the list later, or dropped. -/
def State.done (state : State) (task : Task) : List Task :=
  if (state.class? task.cls).isSome then [task] else []

/-- The history after one more step, from the first state to the second: a task is taken off the
list, and what it calls for is put at the end, or all classes that are wanted are asked for. -/
def History.step (history : History) (state next : State) : History :=
  match state.work with
  | task :: rest =>
    { history with
      queued := history.queued ++ next.work.drop rest.length
      applied := history.applied ++ state.done task }
  | [] => { history with asked := history.asked ++ state.wanted }

/-- A run past the check of the root class has come to this state and loader, with this history. -/
inductive Course (allow : Bool) (requirement : Requirement) (loader : Loader) :
    History → State → Loader → Prop
  | start {root : ClassSummary} {after : Loader}
      (loads : loader.loadSummary .object = (.ok (some root), after))
      (isRoot : root.isRoot = true) :
      Course allow requirement loader
        { asked := [.object]
          queued := (State.start allow root requirement loader.entryPoints).work
          applied := [] }
        (State.start allow root requirement loader.entryPoints) after
  | step {history : History} {state next : State} {before after : Loader}
      (course : Course allow requirement loader history state before)
      (busy : state.isSettled = false) (steps : state.step before = (.ok next, after)) :
      Course allow requirement loader (history.step state next) next after

/-- A run over the classes of a loader comes to this state, between two steps or within one, by way
of turns. -/
structure Loader.Reaches (loader : Loader) (allow : Bool) (requirement : Requirement)
    (state : State) : Prop where
  rooted : loader.knows.IsRooted
  turns : Turns (loader.settingFor allow requirement fun _ => True) { allowForwarders := allow }
    state

namespace State

/-- The state and the loader after so many steps of a run, if it makes that many. -/
def walk : Nat → State → Loader → Option (State × Loader)
  | 0, state, loader => some (state, loader)
  | steps + 1, state, loader =>
    if state.isSettled then none
    else
      match state.step loader with
      | (.ok next, after) => next.walk steps after
      | (.error _, _) => none

end State

/-! ### Reached states -/

namespace Loader.Reaches

theorem isFair (reaches : loader.Reaches allow requirement state) :
    (loader.settingFor allow requirement fun _ => True).IsFair :=
  isFair_settingFor reaches.rooted

theorem valid (reaches : loader.Reaches allow requirement state) :
    state.Valid (loader.settingFor allow requirement fun _ => True) :=
  Turns.valid reaches.isFair reaches.turns (State.valid_empty _)

end Loader.Reaches

theorem Loader.loadSummaries_append (first second : List ClassName) (loader : Loader) :
    (loader.loadSummaries (first ++ second)).2 =
      ((loader.loadSummaries first).2.loadSummaries second).2 := by
  induction first generalizing loader with
  | nil => rfl
  | cons name rest ih => exact ih (loader.loadSummary name).2

/-! ### Courses -/

namespace Course

variable {history : History}

/-- Everything that holds between the steps of a run holds along its course. -/
theorem run (course : Course allow requirement loader history state after) :
    loader.knows.IsRooted ∧
      state.InOrder (loader.settingFor allow requirement fun _ => True) ∧
      Turns (loader.settingFor allow requirement fun _ => True) { allowForwarders := allow } state ∧
      after.knows = loader.knows := by
  let setting := loader.settingFor allow requirement fun _ => True
  induction course with
  | @start root after loads isRoot =>
    have known : some root = loader.knows .object :=
      Loader.knows_of_loadSummary (congrArg Prod.fst loads)
    have rooted : loader.knows.IsRooted := ⟨root, known.symm, isRoot⟩
    have fair : setting.IsFair := Loader.isFair_settingFor rooted
    refine ⟨rooted, State.inOrder_start fair known.symm isRoot,
      State.turns_start fair known.symm, ?_⟩
    rw [← Loader.knows_loadSummary .object loader, loads]
  | step _ _ steps ih =>
    obtain ⟨rooted, order, turns, knows⟩ := ih
    have fair : setting.IsFair := Loader.isFair_settingFor rooted
    have more := State.turns_step fair order knows.symm steps
    obtain ⟨order', loads⟩ := order.step fair knows.symm steps
    exact ⟨rooted, order', turns.trans more, loads.knows.trans knows⟩

theorem inOrder (course : Course allow requirement loader history state after) :
    state.InOrder (loader.settingFor allow requirement fun _ => True) :=
  course.run.2.1

theorem reaches (course : Course allow requirement loader history state after) :
    loader.Reaches allow requirement state :=
  ⟨course.run.1, course.run.2.2.1⟩

theorem knows (course : Course allow requirement loader history state after) :
    after.knows = loader.knows :=
  course.run.2.2.2

/-- The loader has been asked for the summaries in the history, in this order, and for nothing
else. -/
theorem loader_eq (course : Course allow requirement loader history state after) :
    after = (loader.loadSummaries history.asked).2 := by
  induction course with
  | start loads => simp only [Loader.loadSummaries, loads]
  | @step history _ _ _ _ _ _ steps ih =>
    unfold History.step
    rcases State.step_cases steps with ⟨task, rest, work, _, rfl⟩ | ⟨work, _, rfl⟩
    · simp only [work]
      exact ih
    · simp only [work]
      rw [Loader.loadSummaries_append, ih]

/-- A run that is continued until nothing is left to do follows its course. -/
theorem settle (course : Course allow requirement loader history state before) (steps : Nat)
    (ends : state.settle steps before = (.ok next, after)) :
    ∃ later, Course allow requirement loader later next after ∧ next.isSettled = true := by
  have run := State.settle_induct
    (motive := fun state before => ∃ history, Course allow requirement loader history state before)
    (fun ⟨_, course⟩ busy stepped => ⟨_, course.step busy stepped⟩) steps ⟨history, course⟩ ends
  obtain ⟨⟨later, course⟩, settled⟩ := run
  exact ⟨later, course, settled⟩

/-- A run that makes some more steps follows its course. -/
theorem walk (course : Course allow requirement loader history state before) (steps : Nat)
    (walks : state.walk steps before = some (next, after)) :
    ∃ later, Course allow requirement loader later next after := by
  induction steps generalizing history state before with
  | zero =>
    cases walks
    exact ⟨history, course⟩
  | succ steps ih =>
    unfold State.walk at walks
    split at walks
    · cases walks
    · rename_i busy
      cases stepped : state.step before with
      | mk result later =>
        rw [stepped] at walks
        cases result with
        | error => cases walks
        | ok middle => exact ih (course.step (Bool.eq_false_iff.2 busy) stepped) walks

end Course

/-! ### Analyses -/

/-- An analysis that has a result is idle, and then it asks for nothing, or it is refused, and then
it has asked for the root class only, or it is the result of a course that has come to its end. -/
theorem analyze_course {analysis : Analysis}
    (ends : analyze allow requirement loader = (.ok analysis, after)) :
    (analysis.classes = ∅ ∧ (analysis.errors = [] ∧ after = loader ∨
        analysis.errors ∈ [[.missingRootClass], [.invalidRootClass]] ∧
          after = (loader.loadSummary .object).2)) ∨
      ∃ history state, Course allow requirement loader history state after ∧
        state.isSettled = true ∧ analysis = state.result := by
  unfold analyze at ends
  simp only at ends
  split at ends
  · cases ends
    exact .inl ⟨rfl, .inl ⟨rfl, rfl⟩⟩
  · cases loads : loader.loadSummary .object with
    | mk answer later =>
      rw [loads] at ends
      rcases answer with _ | _ | root
      · cases ends
      · cases ends
        exact .inl ⟨rfl, .inr ⟨by simp, rfl⟩⟩
      · simp only at ends
        split at ends
        · cases ends
          exact .inl ⟨rfl, .inr ⟨by simp, rfl⟩⟩
        · rename_i proper
          have course : Course allow requirement loader _ _ later :=
            .start loads (by simpa using proper)
          generalize settles : (State.start allow root requirement
            loader.entryPoints).settle (stepBudget later requirement) later = settled at ends
          obtain ⟨_ | final, last⟩ := settled
          · cases ends
          · cases ends
            obtain ⟨history, course, done⟩ := course.settle _ settles
            exact .inr ⟨history, final, course, done, rfl⟩

/-- A class that an analysis knows in the end is one of a state that its run has come to. -/
theorem exists_reached_of_analyze {analysis : Analysis} {name : ClassName} {cls : ClassRecord}
    (ends : analyze allow requirement loader = (.ok analysis, after))
    (found : analysis.class? name = some cls) :
    ∃ state, loader.Reaches allow requirement state ∧ state.class? name = some cls ∧
      analysis = state.result := by
  rcases analyze_course ends with ⟨empty, _⟩ | ⟨_, state, course, _, rfl⟩
  · simp [Analysis.class?, empty] at found
  · exact ⟨state, course.reaches, state.class?_result name ▸ found, rfl⟩

end ClassLinker
