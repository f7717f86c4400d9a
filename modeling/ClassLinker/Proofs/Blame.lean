import ClassLinker.Proofs.Accounts
import ClassLinker.Proofs.Leaves
import ClassLinker.Proofs.Origins

/-!
# Components that need classes that do not exist

A class that does not exist is reported for a component exactly if some leaf of the requirement
needs it for the component and no optional requirement lies above the leaf.

* `State.Blames`: such errors are due to tasks that the run begins with, for no other task has a
  component as its cause and a class that does not exist;
* `Course.reports`: a task that is done for a class that does not exist is reported;
* `missingClass_mem_errors_iff`: which of these errors an analysis has.
-/

namespace ClassLinker

variable {setting : Setting} {state next : State} {task : Task} {tasks : List Task}
variable {errors : List Diagnostic} {name other : ClassName} {cls record : ClassRecord}
variable {asker : String} {cause : Cause} {key : MethodKey} {status : Status}

/-- A run begins with the task, or its class exists, or no component asks for it. -/
def Setting.Admits (setting : Setting) (task : Task) : Prop :=
  task ∈ setting.rootTasks ∨ (∃ summary, setting.world task.cls = some summary) ∨
    ∀ asker, task.cause ≠ .component asker

/-- The run begins with a task for the class and the component that is not optional. -/
def Setting.Needs (setting : Setting) (asker : String) (name : ClassName) : Prop :=
  ∃ task ∈ setting.rootTasks,
    task.cls = name ∧ task.cause = .component asker ∧ task.isOptional = false

/-- If a component is blamed for asking for a class that does not exist, the run began with that. -/
structure State.Blames (setting : Setting) (state : State) : Prop where
  tasks : ∀ {task}, state.Holds task → setting.Admits task
  errors : ∀ {name asker}, .missingClass name (.component asker) ∈ state.errors →
    setting.world name = none ∧ setting.Needs asker name

namespace State.Blames

/-- Only what is new has to be accounted for. -/
theorem step (blames : state.Blames setting)
    (tasks : ∀ task, next.Holds task → state.Holds task ∨ setting.Admits task)
    (errors : ∀ name asker, .missingClass name (.component asker) ∈ next.errors →
      .missingClass name (.component asker) ∈ state.errors ∨
        setting.world name = none ∧ setting.Needs asker name) : next.Blames setting where
  tasks holds := (tasks _ holds).elim blames.tasks id
  errors mem := (errors _ _ mem).elim blames.errors id

theorem revise (blames : state.Blames setting) (admits : ∀ task ∈ tasks, setting.Admits task)
    (others : ∀ name asker, .missingClass name (.component asker) ∉ errors) :
    (state.revise name record tasks errors).Blames setting :=
  blames.step (fun _ holds => holds.of_revise.imp_right (admits _)) fun _ _ mem =>
    .inl ((List.mem_append.1 mem).resolve_right (others _ _))

theorem extend (blames : state.Blames setting) (admits : ∀ task ∈ tasks, setting.Admits task)
    (owed : ∀ name asker, .missingClass name (.component asker) ∈ errors →
      setting.world name = none ∧ setting.Needs asker name) :
    (state.extend tasks errors).Blames setting := by
  refine blames.step (fun task holds => ?_) fun _ _ mem =>
    (List.mem_append.1 mem).imp_right (owed _ _)
  rcases holds with mem | parked
  · exact (List.mem_append.1 mem).imp .inl (admits task)
  · exact .inl (.inr parked)

theorem setStatus (blames : state.Blames setting)
    (parked : ∀ task ∈ status.parked, state.Holds task ∨ setting.Admits task) :
    (state.setStatus name status).Blames setting :=
  blames.step (fun task holds => holds.of_setStatus.elim .inl (parked task)) fun _ _ => .inl

/-- Nothing changes but the lists of what is to be done and loaded. -/
theorem requeue (blames : state.Blames setting) (table : next.table = state.table)
    (work : next.work ⊆ state.work) (errors : next.errors = state.errors) :
    next.Blames setting := by
  refine blames.step (fun task holds => .inl ?_) fun _ _ mem => .inl (errors ▸ mem)
  rcases holds with mem | ⟨name, status, h, parked⟩
  · exact .inl (work mem)
  · rw [status?, table] at h
    exact .inr ⟨name, status, h, parked⟩

/-! ### Tasks -/

theorem markInstances (blames : state.Blames setting) (name : ClassName) :
    (state.markInstances name).Blames setting := by
  rcases state.markInstances_cases name with same | ⟨cls, found, _, same⟩
  · rw [same]
    exact blames
  · rw [same]
    refine blames.revise (fun task mem => .inr (.inr fun asker => ?_)) fun _ _ mem => by cases mem
    unfold instanceTasks at mem
    split at mem
    · cases mem
    · rcases List.mem_append.1 mem with mem | mem
      · split at mem
        · cases mem
        · simp [cause_of_mem_exportedMemberTasks mem]
      · obtain ⟨field, _, rfl⟩ := List.mem_map.1 mem
        simp

theorem addInhabited (blames : state.Blames setting) (name ancestor : ClassName) :
    (state.addInhabited name ancestor).Blames setting := by
  rcases state.addInhabited_cases name ancestor with same | ⟨cls, found, same⟩
  · rw [same]
    exact blames
  · rw [same]
    exact blames.revise (fun _ mem => by cases mem) fun _ _ mem => by cases mem

theorem createJS (blames : state.Blames setting) (cls : ClassRecord) :
    (state.createJS cls).Blames setting := by
  simp only [State.createJS, addTasks_eq]
  have asked : (state.extend cls.superTasks []).Blames setting := by
    refine blames.extend (fun task mem => .inr (.inr fun asker => ?_)) fun _ _ mem => by cases mem
    obtain ⟨parent, _, rfl⟩ := List.mem_map.1 mem
    simp
  exact (asked.markInstances cls.name).extend
    (fun task mem => .inr (.inr fun asker => by simp [cause_of_mem_exportedMemberTasks mem]))
    fun _ _ mem => by cases mem

theorem lands (blames : state.Blames setting) (lands : state.Lands name key cause next) :
    next.Blames setting := by
  cases lands with
  | @intro owner cls entry errors found landing =>
    refine blames.revise (fun task mem => .inr (.inr fun asker => ?_)) fun other asker mem => ?_
    · unfold ClassRecord.callTasks at mem
      split at mem
      · cases mem
      · simp [cause_of_mem_methodTasks mem]
    · have conflict : ∀ {method owners},
          Diagnostic.missingClass other (.component asker) ∉
            conflictErrors method owners cause := by
        intro method owners mem
        unfold conflictErrors at mem
        split at mem <;> simp at mem
      cases landing with
      | resolved resolved =>
        cases resolved with
        | inherited => cases mem
        | default _ _ _ _ _ _ conflicts => exact conflict (conflicts mem)
        | missing => simp at mem
        | bridge => exact conflict mem
      | own | proxy => cases mem
      | absent => simp at mem

end State.Blames

/-- What the entry points of a class ask for comes from a class that exists, or is exported. -/
theorem Setting.admits_of_mem_entryTasks (valid : state.Valid setting)
    (found : state.class? name = some cls) (mem : task ∈ State.entryTasks cls) :
    setting.Admits task := by
  unfold State.entryTasks at mem
  split at mem
  · cases mem
  · rename_i summary known
    rcases List.mem_append.1 mem with mem | mem
    · split at mem
      · rw [List.mem_singleton.1 mem]
        refine .inr (.inl ⟨summary, ?_⟩)
        show setting.world cls.name = _
        rw [valid.follows.name_eq found, ← valid.follows.summary_eq found, known]
      · cases mem
    · obtain ⟨item, _, mem⟩ := List.mem_flatMap.1 mem
      obtain ⟨demand, _, same⟩ := Demands.mem_tasks.1 mem
      refine .inr (.inr fun asker => ?_)
      rw [same]
      simp

/-- An effect of a task for a class that exists, or is not linked, blames no component. -/
theorem Effect.blames (fair : setting.IsFair) (valid : state.Valid setting)
    (justified : setting.Justifies task) (blames : state.Blames setting)
    (admits : setting.Admits task)
    (present : ∀ cls, state.class? task.cls = some cls → cls.isPresent = true)
    (effect : Effect task state next) : next.Blames setting := by
  have noTasks : ∀ task ∈ ([] : List Task), setting.Admits task := fun _ mem => by cases mem
  have noErrors : ∀ name asker, Diagnostic.missingClass name (.component asker) ∉ [] :=
    fun _ _ mem => by cases mem
  cases effect with
  | use | creator | create | note => exact blames.revise noTasks noErrors
  | mark => exact (blames.markInstances _).addInhabited _ _
  | markJS => exact blames.createJS _
  | markNative => exact blames.markInstances _
  | construct found =>
    refine blames.extend (fun due mem => ?_) fun _ _ mem => absurd mem (noErrors _ _)
    rw [List.mem_singleton.1 mem]
    -- The constructor is called for the cause that reads the module, which exists.
    obtain ⟨summary, known⟩ := Option.isSome_iff_exists.1 (present _ found)
    exact .inr (.inl ⟨summary, (valid.follows.summary_eq found).symm.trans known⟩)
  | dispatch found resident =>
    exact blames.lands (State.lands_noted fair valid found resident _ _)
  | again found resident _ dispatched =>
    exact blames.lands (State.lands_notedAgain fair valid found resident dispatched _)
  | exact found asked => exact blames.lands (State.lands_exact fair valid found justified asked _)
  | direct found => exact blames.lands (State.lands_callDirect fair valid found _ _)
  | enter found =>
    exact blames.extend (fun due mem => Setting.admits_of_mem_entryTasks valid found mem)
      fun _ _ mem => absurd mem (noErrors _ _)
  | report wrong =>
    refine blames.extend noTasks fun name asker mem => ?_
    rw [List.mem_singleton] at mem
    rcases wrong with rfl | ⟨_, cls, found, missing⟩
    · cases mem
    · rw [present cls found] at missing
      cases missing
  | await =>
    have parked : (state.setStatus task.cls (.awaited [task])).Blames setting :=
      blames.setStatus fun due mem => .inr (List.mem_singleton.1 mem ▸ admits)
    exact parked.requeue rfl (List.Subset.refl _) rfl
  | park status | parkLoaded status =>
    refine blames.setStatus fun due mem => ?_
    rcases List.mem_append.1 mem with mem | mem
    · exact .inl (.inr ⟨_, _, status, mem⟩)
    · exact .inr (List.mem_singleton.1 mem ▸ admits)

/-- Linking blames classes only. -/
theorem Linking.blames (blames : state.Blames setting) (linking : Linking setting state next) :
    next.Blames setting := by
  cases linking with
  | settle step =>
    cases step with
    | absent status =>
      refine blames.step (fun task holds => .inl ?_) fun _ _ mem =>
        .inl ((List.mem_append.1 mem).resolve_right List.not_mem_nil)
      exact holds.of_revise.elim id fun mem => .inr ⟨_, _, status, mem⟩
    | link parents status =>
      refine blames.step (fun task holds => .inl ?_) fun name asker mem =>
        .inl ((List.mem_append.1 mem).resolve_right fun new => ?_)
      · exact holds.of_revise.elim id fun mem => .inr ⟨_, _, status, mem⟩
      · cases ClassSummary.cause?_of_mem_linkErrors new
    | fail => exact blames.setStatus fun _ mem => by cases mem
    | @cycle first rest _ loaded =>
      refine blames.step (fun task holds => .inl ?_) fun name asker mem => .inl ?_
      · rcases holds with mem | ⟨name, status, h, parked⟩
        · rw [State.failCycle_eq] at mem
          exact .inl mem
        · rcases State.status_of_failCycle h with ⟨_, rfl⟩ | h
          · cases parked
          · exact .inr ⟨name, status, h, parked⟩
      · rw [State.errors_failCycle] at mem
        exact (List.mem_append.1 mem).resolve_right (by simp)
  | @request _ parent =>
    have awaited : (state.setStatus parent (.awaited [])).Blames setting :=
      blames.setStatus fun _ mem => by cases mem
    exact awaited.requeue rfl (List.Subset.refl _) rfl
  | queue => exact blames.requeue rfl (List.Subset.refl _) rfl

/-- A class that is taken in keeps the tasks that are parked with it. -/
theorem State.Blames.receive (blames : state.Blames setting)
    (unseen : ∀ status, state.status? name = some status → ∃ parked, status = .awaited parked)
    (summary : Option ClassSummary) : (state.receive name summary).Blames setting := by
  obtain ⟨parked, same, before⟩ := State.receive_of_unseen unseen summary
  have taken : (state.setStatus name (.loaded summary parked)).Blames setting :=
    blames.setStatus fun task mem => .inl (.inr ⟨name, before task mem⟩)
  rw [same]
  exact taken.requeue rfl (List.Subset.refl _) rfl

section

variable (fair : setting.IsFair) (full : ∀ fact, setting.facts fact)

include fair full

theorem Effects.blames (valid : state.Valid setting) (justified : setting.Justifies task)
    (blames : state.Blames setting) (admits : setting.Admits task)
    (found : state.class? task.cls = some cls) (present : cls.isPresent = true)
    (effects : Effects task state next) : next.Blames setting := by
  induction effects with
  | refl => exact blames
  | @tail middle final early effect ih =>
    have changes := Effects.changes fair full valid justified early
    obtain ⟨record, found', growth⟩ := (Changes.grows changes).classes found
    refine effect.blames fair (Changes.valid fair changes valid) justified ih admits
      fun known found'' => ?_
    obtain rfl := Option.some.inj (found'.symm.trans found'')
    rw [growth.isPresent_eq, present]

/-- Doing a task for a class that does not exist blames what has asked for it, and nothing else
blames components. -/
theorem State.Blames.perform (valid : state.Valid setting) (consistent : state.Consistent)
    (justified : setting.Justifies task) (blames : state.Blames setting)
    (admits : setting.Admits task) : (state.perform task).Blames setting := by
  have effects := State.effects_perform fair full valid consistent justified
  cases found : state.class? task.cls with
  | some cls =>
    cases present : cls.isPresent with
    | true => exact Effects.blames fair full valid justified blames admits found present effects
    | false =>
      have missing : setting.world task.cls = none := by
        rw [← valid.follows.summary_eq found]
        simpa [ClassRecord.isPresent] using present
      simp only [State.perform, State.class?_eq_some.1 found, present, Bool.false_eq_true, if_false]
      split
      · exact blames
      · rename_i required
        rw [State.report_eq]
        refine blames.extend (fun _ mem => by cases mem) fun name asker mem => ?_
        obtain ⟨rfl, cause⟩ : name = task.cls ∧ .component asker = task.cause := by
          simpa using mem
        refine ⟨missing, task, ?_, rfl, cause.symm, by simpa using required⟩
        rcases admits with root | ⟨summary, known⟩ | others
        · exact root
        · rw [missing] at known
          cases known
        · exact absurd cause.symm (others asker)
  | none =>
    have vacuous : ∀ cls, state.class? task.cls = some cls → cls.isPresent = true :=
      fun cls found' => absurd (found.symm.trans found') (by simp)
    have blames' : ∀ {next}, Effect task state next → next.Blames setting := fun effect =>
      effect.blames fair valid justified blames admits vacuous
    cases h : state.status? task.cls with
    | none =>
      simp only [State.perform, h]
      exact blames' (.await h)
    | some status =>
      cases status with
      | awaited =>
        simp only [State.perform, h]
        exact blames' (.park h)
      | loaded =>
        simp only [State.perform, h]
        exact blames' (.parkLoaded h)
      | linked record =>
        rw [State.class?_eq_some.2 h] at found
        cases found
      | failed =>
        simp only [State.perform, h]
        exact blames

theorem Turn.blames (blames : state.Blames setting) (turn : Turn setting state next) :
    next.Blames setting := by
  cases turn with
  | @perform task rest order work =>
    obtain ⟨valid, consistent, justified⟩ := order.takes work
    have first : task ∈ state.work := work ▸ List.mem_cons_self
    have taken : ({ state with work := rest } : State).Blames setting :=
      blames.requeue rfl (work ▸ List.subset_cons_self ..) rfl
    exact taken.perform fair full valid consistent justified (blames.tasks (.inl first))
  | link linking => exact linking.blames blames
  | handOver => exact blames.requeue rfl (List.Subset.refl _) rfl
  | receive awaited =>
    exact blames.receive (fun status h => ⟨_, Option.some.inj (h.symm.trans awaited)⟩) _
  | root blank =>
    refine blames.receive (fun status h => ?_) _
    rw [blank, State.status?_blank] at h
    cases h
  | ask =>
    rw [State.addTasks_eq]
    exact blames.extend (fun task mem => .inl mem) fun _ _ mem => by cases mem

/-- Whenever a component is blamed, the run has begun with what it needs. -/
theorem Turns.blames (turns : Turns setting { allowForwarders := setting.allow } state) :
    state.Blames setting := by
  induction turns with
  | refl =>
    refine ⟨fun holds => ?_, fun mem => by cases mem⟩
    rcases holds with mem | ⟨name, status, h, _⟩
    · cases mem
    · rw [State.status?_blank] at h
      cases h
  | tail _ turn ih => exact turn.blames fair full ih

end

/-! ### Whole runs -/

section

variable {allow : Bool} {requirement : Requirement} {loader before after : Loader}
variable {history : History}

/-- A class that has been linked as one that does not exist stays so, and was so before. -/
theorem State.Grows.absent_before (grows : state.Grows next)
    (linked : state.class? name ≠ none) (found : next.class? name = some record)
    (absent : record.isPresent = false) :
    ∃ cls, state.class? name = some cls ∧ cls.isPresent = false := by
  obtain ⟨cls, known⟩ := Option.ne_none_iff_exists'.1 linked
  obtain ⟨later, found', growth⟩ := grows.classes known
  obtain rfl := Option.some.inj (found.symm.trans found')
  exact ⟨cls, known, growth.isPresent_eq ▸ absent⟩

/-- Every task that has been done for a class that does not exist is reported, unless it was
optional. -/
theorem Course.reports (course : Course allow requirement loader history state after)
    (mem : task ∈ history.applied) (found : state.class? task.cls = some cls)
    (absent : cls.isPresent = false) (required : task.isOptional = false) :
    .missingClass task.cls task.cause ∈ state.errors := by
  induction course generalizing cls with
  | start => cases mem
  | @step history state next before after course busy steps ih =>
    have fair := course.reaches.isFair
    have order := course.inOrder
    have balances := course.balances
    have linked_of_applied : task ∈ history.applied → state.class? task.cls ≠ none := by
      intro mem unlinked
      have here : task ∈ tasksFor task.cls history.applied :=
        List.mem_filter.2 ⟨mem, decide_eq_true rfl⟩
      rw [balances.idle unlinked] at here
      cases here
    have kept : state.Grows next → task ∈ history.applied →
        .missingClass task.cls task.cause ∈ next.errors := by
      intro grows mem
      obtain ⟨before, known, absent⟩ :=
        grows.absent_before (linked_of_applied mem) found absent
      exact grows.errors.subset (ih mem known absent)
    have grows : state.Grows next := Moves.grows (Turns.moves fair
      (State.turns_step fair order course.knows.symm steps))
    rcases State.step_cases steps with ⟨first, rest, work, rfl, _⟩ | ⟨work, _, _⟩
    · have applied :
          (history.step state (({ state with work := rest } : State).perform first)).applied =
            history.applied ++ state.done first := by simp [History.step, work]
      rw [applied] at mem
      rcases List.mem_append.1 mem with mem | mem
      · exact kept grows mem
      · -- The task is done now.
        unfold State.done at mem
        split at mem
        · rename_i linked
          obtain rfl := List.mem_singleton.1 mem
          obtain ⟨before, known, absent⟩ :=
            grows.absent_before (Option.isSome_iff_ne_none.1 linked) found absent
          have status : ({ state with work := rest } : State).status? task.cls =
              some (.linked before) := State.class?_eq_some.1 known
          simp [State.perform, status, absent, required, State.report]
        · cases mem
    · have applied : (history.step state next).applied = history.applied := by
        simp [History.step, work]
      exact kept grows (applied ▸ mem)

/-- What a run begins with is queued from the start. -/
theorem Course.mem_queued (course : Course allow requirement loader history state after)
    (mem : task ∈ (loader.settingFor allow requirement fun _ => True).rootTasks) :
    task ∈ history.queued := by
  induction course with
  | start => exact List.mem_append_right _ mem
  | step _ _ _ ih =>
    unfold History.step
    split
    · exact List.mem_append_left _ ih
    · exact ih

/-- In the end, a class that does not exist is reported for a component exactly if a leaf of the
requirement that is not optional needs it for the component. -/
theorem Course.missingClass_mem_result_iff
    (course : Course allow requirement loader history state after)
    (settled : state.isSettled = true) :
    .missingClass name (.component asker) ∈ state.result.errors ↔ loader.knows name = none ∧
      ∃ leaf, requirement.HasLeaf false leaf ∧ leaf.IsFor asker name := by
  have fair := course.reaches.isFair
  have order := course.inOrder
  constructor
  · intro mem
    have reported := (State.mem_errors_or_conflict mem).resolve_right (by simp)
    obtain ⟨missing, task, root, rfl, cause, required⟩ :=
      (Turns.blames fair (fun _ => trivial) course.reaches.turns).errors reported
    refine ⟨missing, ?_⟩
    rcases List.mem_append.1 root with asked | entered
    · obtain ⟨isOptional, leaf, has, mem⟩ := Requirement.mem_tasks_iff.1 asked
      obtain ⟨asker', needs, cause', rfl⟩ := Requirement.isFor_of_mem_leafTasks mem
      obtain rfl : asker' = asker := Cause.component.inj (cause'.symm.trans cause)
      exact ⟨leaf, required ▸ has, needs⟩
    · obtain ⟨entry, _, rfl⟩ := List.mem_map.1 entered
      cases cause
  · rintro ⟨missing, leaf, has, needs⟩
    obtain ⟨task, mem, rfl, cause, required⟩ := Requirement.exists_mem_leafTasks needs false
    have root : task ∈ (loader.settingFor allow requirement fun _ => True).rootTasks :=
      List.mem_append_left _ (Requirement.mem_tasks_iff.2 ⟨false, leaf, has, mem⟩)
    have links : (loader.settingFor allow requirement fun _ => True).world.Links task.cls
      (.absent task.cls) := .absent missing
    rcases order.isSettledClass_of_covers settled (order.accounted (.inl root)) with
      ⟨cls, found⟩ | failed
    · have queued : task ∈ tasksFor task.cls history.queued :=
        List.mem_filter.2 ⟨course.mem_queued root, decide_eq_true rfl⟩
      rw [← (course.closes settled).done found] at queued
      have absent : cls.isPresent = false := by
        have known := order.valid.follows.summary_eq found
        simp only [ClassRecord.isPresent, known]
        exact congrArg Option.isSome missing
      have reported := course.reports (List.mem_filter.1 queued).1 found absent required
      rw [cause] at reported
      exact State.mem_errors_result reported
    · exact absurd links (order.valid.failed failed _)

/-- Of the analyses, only those that have something to do and a proper root class report such a
class. -/
theorem missingClass_mem_errors_iff {analysis : Analysis}
    (ends : analyze allow requirement loader = (.ok analysis, after)) :
    .missingClass name (.component asker) ∈ analysis.errors ↔ analysis.classes ≠ ∅ ∧
      loader.knows name = none ∧
        ∃ leaf, requirement.HasLeaf false leaf ∧ leaf.IsFor asker name := by
  rcases analyze_course ends with ⟨empty, idle⟩ | ⟨history, state, course, settled, rfl⟩
  · refine iff_of_false (fun mem => ?_) fun ⟨nonempty, _⟩ => nonempty empty
    rcases idle with ⟨clean, _⟩ | ⟨refused, _⟩
    · rw [clean] at mem
      cases mem
    · rcases List.mem_cons.1 refused with same | refused
      · simp [same] at mem
      · simp [List.mem_singleton.1 refused] at mem
  · have nonempty : state.result.classes ≠ ∅ := by
      obtain ⟨root, found⟩ := course.inOrder.rooted
      intro empty
      rw [← state.class?_result, Analysis.class?, empty, Std.ExtTreeMap.getElem?_empty] at found
      cases found
    rw [course.missingClass_mem_result_iff settled]
    exact (and_iff_right nonempty).symm

/-- No error is reported twice. -/
theorem nodup_errors {analysis : Analysis}
    (ends : analyze allow requirement loader = (.ok analysis, after)) : analysis.errors.Nodup := by
  rcases analyze_course ends with ⟨_, idle⟩ | ⟨_, state, _, _, rfl⟩
  · rcases idle with ⟨clean, _⟩ | ⟨refused, _⟩
    · rw [clean]
      exact List.nodup_nil
    · rcases List.mem_cons.1 refused with same | refused
      · simp [same]
      · simp [List.mem_singleton.1 refused]
  · exact nodup_eraseDups _

end

end ClassLinker
