import ClassLinker.Proofs.Blame
import ClassLinker.Proofs.MirroredRuns

/-!
# Optional requirements

Making parts of a requirement optional changes nothing but the errors about classes that components
need and that do not exist: what such a class would have been needed for is not done in either case.
The two runs go in step, one task for one task, and their states mirror each other up to
`Leeway.lenient`, which lets tasks of components differ in whether they are optional.

* `Requirement.Wraps`: one part of a requirement is made optional;
* `Requirement.Forgives`: the errors that go away, if there are any;
* `analyze_forgiven`: the results of the analyses.
-/

namespace ClassLinker

variable {plain wrapped : Requirement} {state mirror : State} {task task' : Task}
variable {loader : Loader} {allow : Bool}

/-! ### Optional parts -/

namespace Requirement

/-- One part of the requirement is made optional. -/
inductive Wraps : Requirement → Requirement → Prop
  | here (part : Requirement) : Wraps part (.optional part)
  | under {part part' : Requirement} (wraps : Wraps part part') :
      Wraps (.optional part) (.optional part')
  | among (before after : List Requirement) {part part' : Requirement} (wraps : Wraps part part') :
      Wraps (.every (before ++ part :: after)) (.every (before ++ part' :: after))

/-- The error is about a class that does not exist, and everything that needs the class for the
component lies below an optional requirement. -/
def Forgives (requirement : Requirement) (error : Diagnostic) : Prop :=
  ∃ name asker, error = .missingClass name (.component asker) ∧
    ∀ {isOptional leaf}, requirement.HasLeaf isOptional leaf → leaf.IsFor asker name →
      isOptional = true

/-- A leaf that is not below an optional requirement has not been before. -/
theorem Wraps.hasLeaf (wraps : Wraps plain wrapped) {leaf : Requirement}
    (has : wrapped.HasLeaf false leaf) : plain.HasLeaf false leaf := by
  induction wraps generalizing leaf with
  | here | under =>
    cases has with
    | self isLeaf => cases isLeaf
  | among before after _ ih =>
    cases has with
    | self isLeaf => cases isLeaf
    | every mem has =>
      rcases List.mem_append.1 mem with mem | mem
      · exact .every (List.mem_append_left _ mem) has
      · rcases List.mem_cons.1 mem with rfl | mem
        · exact .every (List.mem_append_right _ List.mem_cons_self) (ih has)
        · exact .every (List.mem_append_right _ (List.mem_cons_of_mem _ mem)) has

theorem Wraps.isEmpty_eq (wraps : Wraps plain wrapped) : wrapped.isEmpty = plain.isEmpty := by
  induction wraps with
  | here => rfl
  | under _ ih => exact ih
  | among before after _ ih => simp [isEmpty, ih]

end Requirement

/-! ### Tasks of components -/

/-- The task, made optional if a component asks for it. -/
def Task.lenient (task : Task) : Task :=
  match task.cause with
  | .component _ => { task with isOptional := true }
  | _ => task

/-- The error is not about a class that does not exist and that a component needs. -/
def Diagnostic.isFirm : Diagnostic → Bool
  | .missingClass _ (.component _) => false
  | _ => true

theorem Task.eq_of_lenient_eq (same : task'.lenient = task.lenient) :
    task'.cls = task.cls ∧ task'.action = task.action ∧ task'.cause = task.cause := by
  have fields : ∀ task : Task, task.lenient.cls = task.cls ∧ task.lenient.action = task.action ∧
      task.lenient.cause = task.cause := by
    intro task
    unfold Task.lenient
    split <;> exact ⟨rfl, rfl, rfl⟩
  obtain ⟨cls, action, cause⟩ := fields task
  obtain ⟨cls', action', cause'⟩ := fields task'
  exact ⟨by rw [← cls', same, cls], by rw [← action', same, action], by rw [← cause', same, cause]⟩

/-- Tasks that differ in whether they are optional differ in errors that are not firm. -/
theorem Task.filter_missing_eq (same : task'.lenient = task.lenient) :
    task'.missing.filter Diagnostic.isFirm = task.missing.filter Diagnostic.isFirm := by
  have blames : ∀ {task : Task} {asker : String}, task.cause = .component asker →
      task.missing.filter Diagnostic.isFirm = [] := by
    intro task asker cause
    unfold Task.missing
    split <;> simp [cause, Diagnostic.isFirm]
  obtain ⟨_, _, cause_eq⟩ := Task.eq_of_lenient_eq same
  unfold Task.lenient at same
  rw [cause_eq] at same
  cases cause : task.cause with
  | component => rw [blames cause, blames (cause_eq.trans cause)]
  | cls | method | exports =>
    simp only [cause] at same
    rw [same]

mutual

/-- Below an optional requirement or not, the tasks are the same but for being optional. -/
theorem Requirement.map_lenient_tasks (below : Bool) : ∀ requirement : Requirement,
    (requirement.tasks below).map Task.lenient = (requirement.tasks true).map Task.lenient
  | .optional _ => rfl
  | .every all => Requirement.map_lenient_tasksOfAll below all
  | .module .. | .instances .. | .tests .. | .typeData .. | .staticField .. | .call ..
  | .callDirect .. | .callStatic .. => rfl
  | .nothing => rfl

theorem Requirement.map_lenient_tasksOfAll (below : Bool) : ∀ all : List Requirement,
    (tasksOfAll below all).map Task.lenient = (tasksOfAll true all).map Task.lenient
  | [] => rfl
  | first :: rest => by
    simp only [tasksOfAll, List.map_append]
    rw [Requirement.map_lenient_tasks below first, Requirement.map_lenient_tasksOfAll below rest]

end

theorem Requirement.Wraps.map_lenient_tasks (wraps : Wraps plain wrapped) (below : Bool) :
    (wrapped.tasks below).map Task.lenient = (plain.tasks below).map Task.lenient := by
  induction wraps generalizing below with
  | here part => exact (part.map_lenient_tasks below).symm
  | under _ ih => exact ih true
  | among before after _ ih =>
    simp only [tasks, tasksOfAll_eq_flatMap, List.flatMap_append, List.flatMap_cons,
      List.map_append, ih]

/-! ### Runs in step -/

/-- Tasks of components may differ in whether they are optional, and errors in the classes that
components need and that do not exist. -/
def Leeway.lenient : Leeway where
  work first second := second.map Task.lenient = first.map Task.lenient
  parked first second := second.map Task.lenient = first.map Task.lenient
  errors first second := second.filter Diagnostic.isFirm = first.filter Diagnostic.isFirm
  idle := rfl
  extend more same := by rw [List.map_append, List.map_append, same]
  release same parked := by rw [List.map_append, List.map_append, same, parked]
  report more same := by rw [List.filter_append, List.filter_append, same]

namespace State.Mirrors

variable (mirrors : state.Mirrors .lenient mirror)

include mirrors

theorem isSettled_eq : mirror.isSettled = state.isSettled := by
  have idle := congrArg List.isEmpty mirrors.work
  rw [List.isEmpty_map, List.isEmpty_map] at idle
  rw [isSettled, isSettled, idle, mirrors.wanted]

/-- Both states make a step, or both fail to load a class. -/
theorem step (loader : Loader) :
    Leeway.lenient.Concur (state.step loader).1 (mirror.step loader).1 ∧
      (mirror.step loader).2 = (state.step loader).2 := by
  have same := mirrors.work
  unfold State.step
  cases work : state.work with
  | nil =>
    obtain work' : mirror.work = [] := by
      rw [work] at same
      exact List.map_eq_nil_iff.1 same
    rw [work']
    exact mirrors.loadWanted loader
  | cons task rest =>
    rw [work] at same
    obtain ⟨task', rest', work', first, others⟩ := List.map_eq_cons_iff.1 same
    rw [work']
    obtain ⟨cls, action, cause⟩ := Task.eq_of_lenient_eq first
    have taken : { state with work := rest : State }.Mirrors .lenient
        { mirror with work := rest' } := { mirrors with work := others }
    refine ⟨.ok (taken.perform cls action cause (fun parked => ?_) fun errors => ?_), rfl⟩
    · show List.map _ _ = List.map _ _
      rw [List.map_append, List.map_append, parked, List.map_singleton, List.map_singleton, first]
    · show List.filter _ _ = List.filter _ _
      rw [List.filter_append, List.filter_append, errors, Task.filter_missing_eq first]

/-- Both runs end in the same way. -/
theorem settle (steps : Nat) (loader : Loader) :
    Leeway.lenient.Concur (state.settle steps loader).1 (mirror.settle steps loader).1 ∧
      (mirror.settle steps loader).2 = (state.settle steps loader).2 := by
  induction steps generalizing state mirror loader with
  | zero =>
    unfold State.settle
    rw [mirrors.isSettled_eq]
    refine ⟨?_, rfl⟩
    split
    · exact .ok mirrors
    · exact .error _
  | succ steps ih =>
    unfold State.settle
    rw [mirrors.isSettled_eq]
    split
    · exact ⟨.ok mirrors, rfl⟩
    · obtain ⟨outcome, later⟩ := mirrors.step loader
      generalize state.step loader = first, mirror.step loader = second at outcome later
      obtain ⟨first, after⟩ := first
      obtain ⟨second, after'⟩ := second
      obtain rfl : after' = after := later
      cases outcome with
      | ok mirrors => exact ih mirrors after'
      | error error => exact ⟨.error _, rfl⟩

end State.Mirrors

/-! ### Analyses -/

/-- The second analysis knows the same classes as the first one, and has the same errors, except
those that the requirement forgives. The errors that it could not forgive keep their order. -/
structure Analysis.IsForgiven (requirement : Requirement) (before after : Analysis) : Prop where
  classes : after.classes = before.classes
  errors : ∀ {error}, error ∈ after.errors ↔
    error ∈ before.errors ∧ ¬ requirement.Forgives error
  nodup : before.errors.Nodup ∧ after.errors.Nodup
  order : after.errors.filter Diagnostic.isFirm = before.errors.filter Diagnostic.isFirm

/-- Analyses that differ in which needs of components are optional fail together, and know the same
classes. -/
theorem analyze_lenient
    (tasks : (wrapped.tasks false).map Task.lenient = (plain.tasks false).map Task.lenient)
    (isEmpty : wrapped.isEmpty = plain.isEmpty) (allow : Bool) (loader : Loader) :
    (analyze allow wrapped loader).2 = (analyze allow plain loader).2 ∧
    (∀ failure, (analyze allow plain loader).1 = .error failure →
      (analyze allow wrapped loader).1 = .error failure) ∧
    ∀ before, (analyze allow plain loader).1 = .ok before →
      ∃ after, (analyze allow wrapped loader).1 = .ok after ∧ after.classes = before.classes ∧
        after.errors.filter Diagnostic.isFirm = before.errors.filter Diagnostic.isFirm := by
  have length : (wrapped.tasks false).length = (plain.tasks false).length := by
    have same := congrArg List.length tasks
    rwa [List.length_map, List.length_map] at same
  unfold analyze
  simp only [isEmpty]
  split
  · exact ⟨rfl, fun _ same => same, fun before same => ⟨before, same, rfl, rfl⟩⟩
  · generalize loader.loadSummary .object = loaded
    obtain ⟨error | _ | root, later⟩ := loaded
    · exact ⟨rfl, fun _ same => same, fun before same => ⟨before, same, rfl, rfl⟩⟩
    · exact ⟨rfl, fun _ same => same, fun before same => ⟨before, same, rfl, rfl⟩⟩
    · simp only
      split
      · exact ⟨rfl, fun _ same => same, fun before same => ⟨before, same, rfl, rfl⟩⟩
      · have start : (State.start allow root plain loader.entryPoints).Mirrors .lenient
            (State.start allow root wrapped loader.entryPoints) :=
          { State.Mirrors.refl (fun _ => rfl) (fun _ => rfl) (fun _ => rfl)
              (State.start allow root plain loader.entryPoints) with
            work := by
              show List.map _ (_ ++ (_ ++ _)) = List.map _ (_ ++ (_ ++ _))
              simp only [List.map_append, tasks] }
        obtain ⟨outcome, same⟩ := start.settle (stepBudget later plain) later
        have budget : stepBudget later wrapped = stepBudget later plain := by
          simp only [stepBudget, length]
        rw [budget]
        refine ⟨same, ?_⟩
        generalize (State.start allow root plain loader.entryPoints).settle _ _ = first,
          (State.start allow root wrapped loader.entryPoints).settle _ _ = second at outcome
        obtain ⟨first, _⟩ := first
        obtain ⟨second, _⟩ := second
        cases outcome with
        | error failure => exact ⟨fun _ same => same, fun _ same => (by cases same)⟩
        | @ok state mirror mirrors =>
          refine ⟨fun _ same => (by cases same), fun before same => ?_⟩
          cases same
          refine ⟨mirror.result, rfl, mirrors.classes_result, ?_⟩
          show List.filter _ (List.eraseDups _) = List.filter _ (List.eraseDups _)
          rw [filter_eraseDups, filter_eraseDups, mirrors.checkExports.errors]

/-- Making parts of a requirement optional, wherever they are and however many, changes nothing but
the errors: those go away that are about a class that does not exist and that a component has
needed, if everything that needs it for the component is optional by then. -/
theorem analyze_forgiven (wraps : Relation.ReflTransGen Requirement.Wraps plain wrapped)
    (allow : Bool) (loader : Loader) :
    (analyze allow wrapped loader).2 = (analyze allow plain loader).2 ∧
    (∀ failure, (analyze allow plain loader).1 = .error failure →
      (analyze allow wrapped loader).1 = .error failure) ∧
    ∀ before, (analyze allow plain loader).1 = .ok before →
      ∃ after, (analyze allow wrapped loader).1 = .ok after ∧ before.IsForgiven wrapped after := by
  have tasks : (wrapped.tasks false).map Task.lenient = (plain.tasks false).map Task.lenient := by
    induction wraps with
    | refl => rfl
    | tail _ wraps ih => rw [wraps.map_lenient_tasks, ih]
  have isEmpty : wrapped.isEmpty = plain.isEmpty := by
    clear tasks
    induction wraps with
    | refl => rfl
    | tail _ wraps ih => rw [wraps.isEmpty_eq, ih]
  have hasLeaf : ∀ {leaf}, wrapped.HasLeaf false leaf → plain.HasLeaf false leaf := by
    clear tasks isEmpty
    intro leaf has
    induction wraps with
    | refl => exact has
    | tail _ wraps ih => exact ih (wraps.hasLeaf has)
  obtain ⟨loads, fails, knows⟩ := analyze_lenient tasks isEmpty allow loader
  refine ⟨loads, fails, fun before ends => ?_⟩
  obtain ⟨after, ends', classes, order⟩ := knows before ends
  have plainly : analyze allow plain loader = (.ok before, _) := Prod.ext ends rfl
  have leniently : analyze allow wrapped loader = (.ok after, _) := Prod.ext ends' rfl
  refine ⟨after, ends', classes, fun {error} => ?_, ⟨nodup_errors plainly, nodup_errors leniently⟩,
    order⟩
  cases firm : error.isFirm with
  | true =>
    have unforgiven : ¬ wrapped.Forgives error := by
      rintro ⟨name, asker, rfl, _⟩
      cases firm
    have kept : ∀ errors : List Diagnostic,
        error ∈ errors ↔ error ∈ errors.filter Diagnostic.isFirm := by simp [firm]
    rw [and_iff_left unforgiven, kept, order, ← kept]
  | false =>
    obtain ⟨name, asker, rfl⟩ : ∃ name asker, error = .missingClass name (.component asker) := by
      cases error with
      | missingClass name cause =>
        cases cause with
        | component asker => exact ⟨name, asker, rfl⟩
        | cls | method | exports => cases firm
      | _ => cases firm
    rw [missingClass_mem_errors_iff plainly, missingClass_mem_errors_iff leniently, classes]
    constructor
    · rintro ⟨nonempty, missing, leaf, has, needs⟩
      refine ⟨⟨nonempty, missing, leaf, hasLeaf has, needs⟩, ?_⟩
      rintro ⟨_, _, same, all⟩
      cases same
      cases all has needs
    · rintro ⟨⟨nonempty, missing, _⟩, unforgiven⟩
      refine ⟨nonempty, missing, ?_⟩
      by_contra none
      refine unforgiven ⟨name, asker, rfl, fun {isOptional leaf} has needs => ?_⟩
      cases isOptional with
      | true => rfl
      | false => exact absurd ⟨leaf, has, needs⟩ none

/-- The root class and nothing else. -/
def rootOnly : List ClassDecl :=
  [.ofMethods .object .plain [] []]

/-- A component that needs a class that does not exist in two ways is blamed as long as one of them
is not optional. -/
theorem analyze_forgiven_rootOnly :
    let needs : Requirement := .every [.typeData "test" ⟨"A"⟩, .tests "test" ⟨"A"⟩]
    let half : Requirement := .every [.typeData "test" ⟨"A"⟩, .optional (.tests "test" ⟨"A"⟩)]
    let whole : Requirement := .optional half
    ∃ analysis blamed clean, (analyze true needs (Loader.ofDecls rootOnly)).1 = .ok analysis ∧
      analysis.errors = [.missingClass ⟨"A"⟩ (.component "test")] ∧
      analysis.IsForgiven half blamed ∧ blamed.errors = analysis.errors ∧
      analysis.IsForgiven whole clean ∧ clean.errors = [] := by
  intro needs half whole
  have told : (analyze true needs (Loader.ofDecls rootOnly)).1.toOption.map Analysis.errors =
      some [.missingClass ⟨"A"⟩ (.component "test")] := by decide +kernel
  have told' : (analyze true half (Loader.ofDecls rootOnly)).1.toOption.map Analysis.errors =
      some [.missingClass ⟨"A"⟩ (.component "test")] := by decide +kernel
  have told'' : (analyze true whole (Loader.ofDecls rootOnly)).1.toOption.map Analysis.errors =
      some [] := by decide +kernel
  obtain ⟨analysis, _, ends, errors⟩ := exists_of_toOption_map told
  have wraps : Requirement.Wraps needs half := .among [_] [] (.here _)
  obtain ⟨blamed, ends', forgiven⟩ := (analyze_forgiven (.single wraps) true
    (Loader.ofDecls rootOnly)).2.2 analysis (congrArg Prod.fst ends)
  obtain ⟨clean, ends'', forgiven'⟩ := (analyze_forgiven
    (.tail (.single wraps) (.here half)) true (Loader.ofDecls rootOnly)).2.2 analysis
    (congrArg Prod.fst ends)
  rw [ends'] at told'
  rw [ends''] at told''
  exact ⟨analysis, blamed, clean, congrArg Prod.fst ends, errors, forgiven,
    (Option.some.inj told').trans errors.symm, forgiven', Option.some.inj told''⟩

end ClassLinker
