import ClassLinker.Proofs.Certificates
import ClassLinker.Proofs.Courses
import ClassLinker.Proofs.Reports

/-!
# Reported inheritance cycles

The cycles that a run reports are exactly told (`CyclesExact`): each report lists a cycle of the
universe and nothing below it, no class is on two of the lists, and where a class that the run has
looked at lies on a cycle, some reported cycle lies in the same strongly connected group.

* `LinkStep.reportsCycles`: a class fails with a cycle that is reported, or below a parent that has
  failed. In the second case a parent that lies on a cycle with the class has failed before it, so
  the first class of a group to fail is on a reported cycle;
* `Turn.reportsCycles`: no other turn reports a cycle or fails a class;
* `cycles_exact` is about all states of a run and about the result of an analysis.
-/

namespace ClassLinker

variable {setting : Setting} {world : Universe} {state next : State}
variable {name other : ClassName} {classes : List ClassName} {cause : Cause}
variable {errors more : List Diagnostic} {within : ClassName → Prop}

/-! ### Exact reports -/

/-- The classes that an error reports as an inheritance cycle. -/
def Diagnostic.cycle? : Diagnostic → Option (List ClassName)
  | .inheritanceCycle classes _ => some classes
  | _ => none

/-- The two classes are in one strongly connected group of the universe. -/
def Universe.Connected (world : Universe) (first second : ClassName) : Prop :=
  Relation.ReflTransGen world.Extends first second ∧
    Relation.ReflTransGen world.Extends second first

/-- The cycles among the errors are those that there are: each of them is a cycle, with its first
class as the cause, no class is on two of them, and of the given classes that lie on a cycle each is
connected with the classes of a reported one. -/
structure CyclesExact (world : Universe) (within : ClassName → Prop) (errors : List Diagnostic) :
    Prop where
  genuine : ∀ {classes cause}, .inheritanceCycle classes cause ∈ errors →
    ∃ first rest, classes = first :: rest ∧ cause = .cls first ∧ world.IsCycle first rest
  disjoint : (errors.filterMap Diagnostic.cycle?).Pairwise List.Disjoint
  complete : ∀ {name}, within name → Relation.TransGen world.Extends name name →
    ∃ classes cause, .inheritanceCycle classes cause ∈ errors ∧
      ∀ member ∈ classes, world.Connected name member

theorem Diagnostic.cycle?_eq_some {error : Diagnostic} :
    error.cycle? = some classes ↔ ∃ cause, error = .inheritanceCycle classes cause := by
  constructor
  · intro same
    cases error <;> cases same
    exact ⟨_, rfl⟩
  · rintro ⟨cause, rfl⟩
    rfl

theorem mem_filterMap_cycle? :
    classes ∈ errors.filterMap Diagnostic.cycle? ↔
      ∃ cause, .inheritanceCycle classes cause ∈ errors := by
  simp only [List.mem_filterMap, Diagnostic.cycle?_eq_some]
  constructor
  · rintro ⟨_, mem, cause, rfl⟩
    exact ⟨cause, mem⟩
  · rintro ⟨cause, mem⟩
    exact ⟨_, mem, cause, rfl⟩

/-- Errors that are not about cycles change nothing. -/
theorem filterMap_cycle?_append (others : ∀ error ∈ more, error.cycle? = none) :
    (errors ++ more).filterMap Diagnostic.cycle? = errors.filterMap Diagnostic.cycle? := by
  rw [List.filterMap_append, List.filterMap_eq_nil_iff.2 others, List.append_nil]

/-- What is reported about the parents of a class is not about cycles. -/
theorem ClassSummary.cycle?_of_mem_linkErrors {summary : ClassSummary} {error : Diagnostic}
    {parents : ClassName → ClassRecord} (mem : error ∈ summary.linkErrors name parents) :
    error.cycle? = none := by
  rcases linkError_cases mem with ⟨_, rfl⟩ | ⟨_, rfl⟩ | ⟨_, _, _, rfl⟩ | ⟨_, _, _, rfl⟩ <;> rfl

/-! ### Runs -/

/-- The reported cycles are exact for the classes that have failed. All of their classes have, and
none has failed without some cycle being reported. -/
structure State.ReportsCycles (setting : Setting) (state : State) : Prop
    extends CyclesExact setting.world (fun name => state.status? name = some .failed)
      state.errors where
  failed : ∀ {classes cause name}, .inheritanceCycle classes cause ∈ state.errors →
    name ∈ classes → state.status? name = some .failed
  reported : ∀ {name}, state.status? name = some .failed →
    ∃ classes cause, .inheritanceCycle classes cause ∈ state.errors

namespace State.ReportsCycles

/-- No other class fails, and no cycle is reported. -/
theorem extend (cycles : state.ReportsCycles setting)
    (failed : ∀ name, next.status? name = some .failed ↔ state.status? name = some .failed)
    (grown : next.errors = state.errors ++ more) (others : ∀ error ∈ more, error.cycle? = none) :
    next.ReportsCycles setting := by
  have same : ∀ {classes cause}, .inheritanceCycle classes cause ∈ next.errors ↔
      .inheritanceCycle classes cause ∈ state.errors := by
    intro classes cause
    rw [grown, List.mem_append]
    exact or_iff_left fun mem => Option.some_ne_none _ (others _ mem)
  refine ⟨⟨fun mem => cycles.genuine (same.1 mem), ?_, fun fails loops => ?_⟩,
    fun mem inside => (failed _).2 (cycles.failed (same.1 mem) inside), fun fails => ?_⟩
  · rw [grown, filterMap_cycle?_append others]
    exact cycles.disjoint
  · obtain ⟨classes, cause, mem, connected⟩ := cycles.complete ((failed _).1 fails) loops
    exact ⟨classes, cause, same.2 mem, connected⟩
  · obtain ⟨classes, cause, mem⟩ := cycles.reported ((failed _).1 fails)
    exact ⟨classes, cause, same.2 mem⟩

/-- A class fails below a parent that has failed, when all its parents are settled. -/
theorem fail (cycles : state.ReportsCycles setting) (valid : state.Valid setting)
    {parent : ClassName}
    (above : ∀ parent, setting.world.Extends name parent → state.IsSettledClass parent)
    (failed : state.status? parent = some .failed) :
    (state.setStatus name .failed).ReportsCycles setting := by
  have fails : ∀ {other}, (state.setStatus name .failed).status? other = some .failed →
      other = name ∨ state.status? other = some .failed :=
    fun h => (status_of_setStatus h).imp_left And.left
  refine ⟨⟨cycles.genuine, cycles.disjoint, fun {other} failed' loops => ?_⟩,
    fun mem inside => ?_, fun {other} failed' => ?_⟩
  · rcases fails failed' with rfl | before
    · -- The next class on the cycle is settled, and no class of a cycle gets linked.
      obtain ⟨upper, extends_, back⟩ := Relation.TransGen.head'_iff.1 loops
      have loops' : Relation.TransGen setting.world.Extends upper upper := .tail' back extends_
      have failed : state.status? upper = some .failed := by
        rcases above upper extends_ with ⟨cls, found⟩ | failed
        · exact absurd loops' (valid.follows.links found).not_extends_itself
        · exact failed
      obtain ⟨classes, cause, mem, connected⟩ := cycles.complete failed loops'
      exact ⟨classes, cause, mem, fun member inside =>
        ⟨.head extends_ (connected member inside).1, (connected member inside).2.trans back⟩⟩
    · exact cycles.complete before loops
  · rw [status?_setStatus]
    split
    · rfl
    · exact cycles.failed mem inside
  · exact (fails failed').elim (fun _ => cycles.reported failed) cycles.reported

/-- The classes of a cycle fail together, and it is reported. None of them has been on a cycle that
was reported before. -/
theorem failCycle (cycles : state.ReportsCycles setting) {first : ClassName}
    {rest : List ClassName} (cycle : setting.world.IsCycle first rest)
    (loaded : ∀ name ∈ first :: rest,
      ∃ summary parked, state.status? name = some (.loaded (some summary) parked)) :
    (state.failCycle (first :: rest) first).ReportsCycles setting := by
  have fails : ∀ {other}, (state.failCycle (first :: rest) first).status? other = some .failed ↔
      other ∈ first :: rest ∨ state.status? other = some .failed := by
    intro other
    rw [status?_failCycle]
    split
    · rename_i mem
      exact ⟨fun _ => .inl mem, fun _ => rfl⟩
    · rename_i outside
      exact ⟨.inr, fun h => h.resolve_left outside⟩
  have reports : ∀ {classes cause}, .inheritanceCycle classes cause ∈
      (state.failCycle (first :: rest) first).errors ↔
        .inheritanceCycle classes cause ∈ state.errors ∨
          classes = first :: rest ∧ cause = .cls first := by
    intro classes cause
    rw [errors_failCycle, List.mem_append, List.mem_singleton, Diagnostic.inheritanceCycle.injEq]
  refine ⟨⟨fun mem => ?_, ?_, fun {other} failed loops => ?_⟩, fun mem inside => ?_,
    fun failed => ?_⟩
  · rcases reports.1 mem with before | ⟨rfl, rfl⟩
    · exact cycles.genuine before
    · exact ⟨first, rest, rfl, rfl, cycle⟩
  · rw [errors_failCycle, List.filterMap_append]
    refine List.pairwise_append.2 ⟨cycles.disjoint, List.pairwise_singleton _ _,
      fun classes before closed mem => ?_⟩
    obtain ⟨cause, before⟩ := mem_filterMap_cycle?.1 before
    obtain rfl : closed = first :: rest := List.mem_singleton.1 mem
    intro other inside inside'
    obtain ⟨_, _, status⟩ := loaded other inside'
    rw [cycles.failed before inside] at status
    cases status
  · rcases fails.1 failed with inside | before
    · exact ⟨first :: rest, .cls first, reports.2 (.inr ⟨rfl, rfl⟩), fun member inside' =>
        ⟨(cycle.leads inside inside').to_reflTransGen,
          (cycle.leads inside' inside).to_reflTransGen⟩⟩
    · obtain ⟨classes, cause, mem, connected⟩ := cycles.complete before loops
      exact ⟨classes, cause, reports.2 (.inl mem), connected⟩
  · rcases reports.1 mem with before | ⟨rfl, rfl⟩
    · exact fails.2 (.inr (cycles.failed before inside))
    · exact fails.2 (.inl inside)
  · exact ⟨first :: rest, .cls first, reports.2 (.inr ⟨rfl, rfl⟩)⟩

end State.ReportsCycles

theorem LinkStep.reportsCycles (valid : state.Valid setting) (step : LinkStep setting state next)
    (cycles : state.ReportsCycles setting) : next.ReportsCycles setting := by
  have links : ∀ {name cls summary parked tasks errors},
      state.status? name = some (.loaded summary parked) →
        ∀ other, (state.revise name cls tasks errors).status? other = some .failed ↔
          state.status? other = some .failed := by
    intro name cls summary parked tasks errors status other
    rw [State.status?_revise]
    split
    · rename_i same
      rw [← same, status]
      simp
    · rfl
  cases step with
  | absent status => exact cycles.extend (links status) rfl fun _ mem => by cases mem
  | link _ status =>
    exact cycles.extend (links status) rfl fun _ mem => ClassSummary.cycle?_of_mem_linkErrors mem
  | fail status _ _ above mem failed =>
    refine cycles.fail valid (fun parent extends_ => ?_) failed
    obtain ⟨summary, known, declares⟩ := extends_
    obtain rfl := Option.some.inj ((valid.loaded status).trans known)
    exact above parent declares
  | cycle cycle loaded => exact cycles.failCycle cycle loaded

theorem Turn.reportsCycles (fair : setting.IsFair) (full : ∀ fact, setting.facts fact)
    (valid : state.Valid setting) (turn : Turn setting state next)
    (cycles : state.ReportsCycles setting) : next.ReportsCycles setting := by
  rcases turn.settles_or_uses fair full with step | uses
  · exact step.reportsCycles valid cycles
  · obtain ⟨more, grown, ofUse⟩ := uses.reports
    refine cycles.extend (fun name => ⟨uses.failed_before, uses.grows.failed⟩) grown
      fun error mem => ?_
    cases ofUse error mem <;> rfl

theorem Turns.reportsCycles (fair : setting.IsFair) (full : ∀ fact, setting.facts fact)
    (valid : state.Valid setting) (turns : Turns setting state next)
    (cycles : state.ReportsCycles setting) : next.ReportsCycles setting := by
  induction turns with
  | refl => exact cycles
  | tail early turn ih => exact turn.reportsCycles fair full (Turns.valid fair early valid) ih

theorem State.reportsCycles_blank (setting : Setting) :
    State.ReportsCycles setting { allowForwarders := setting.allow } := by
  refine ⟨⟨fun mem => (by cases mem), List.Pairwise.nil, fun failed => ?_⟩,
    fun mem => (by cases mem), fun failed => ?_⟩
  all_goals
    rw [State.status?_blank] at failed
    cases failed

theorem Loader.Reaches.reportsCycles {allow : Bool} {requirement : Requirement} {loader : Loader}
    (reaches : loader.Reaches allow requirement state) :
    state.ReportsCycles (loader.settingFor allow requirement fun _ => True) :=
  Turns.reportsCycles reaches.isFair (fun _ => trivial) (State.valid_empty _) reaches.turns
    (State.reportsCycles_blank _)

/-! ### Analyses -/

/-- The classes that an analysis has looked at. One that has nothing to do, or is refused because of
the root class, has looked at none, and knows no class in the end. -/
def Analysis.Touches (analysis : Analysis) (loader : Loader) (requirement : Requirement)
    (name : ClassName) : Prop :=
  analysis.classes ≠ ∅ ∧
    Touched loader.knows analysis.class? requirement loader.entryPoints name

/-- Every class that the result has looked at is linked or has failed in the end. -/
theorem Course.isSettledClass_of_touches {allow : Bool} {requirement : Requirement}
    {loader after : Loader} {history : History}
    (course : Course allow requirement loader history state after)
    (settled : state.isSettled = true) (touches : state.result.Touches loader requirement name) :
    state.IsSettledClass name := by
  have reaches := course.reaches
  have rests := Turns.rests reaches.isFair (State.valid_empty _) reaches.turns (State.rests_empty _)
  have touched := touches.2
  rw [show state.result.class? = state.class? from funext state.class?_result] at touched
  exact course.inOrder.isSettledClass_of_touched settled rests touched

/-- The result holds the reported cycles of the run, each once. -/
theorem State.inheritanceCycle_mem_result :
    .inheritanceCycle classes cause ∈ state.result.errors ↔
      .inheritanceCycle classes cause ∈ state.errors := by
  show _ ∈ state.checkExports.errors.eraseDups ↔ _
  rw [List.mem_eraseDups, State.errors_checkExports, List.mem_append]
  exact or_iff_left fun mem => by simp at mem

/-- The cycles of the result are exact for classes that fail if they lie on a cycle. -/
theorem State.ReportsCycles.result (cycles : state.ReportsCycles setting)
    (touched : ∀ name, within name → Relation.TransGen setting.world.Extends name name →
      state.status? name = some .failed) :
    CyclesExact setting.world within state.result.errors := by
  refine ⟨fun mem => cycles.genuine (State.inheritanceCycle_mem_result.1 mem), ?_,
    fun {name} inside loops => ?_⟩
  · have symmetric : Std.Symm (@List.Disjoint ClassName) :=
      ⟨fun _ _ disjoint => List.Disjoint.symm disjoint⟩
    refine List.pairwise_filterMap.2 ((nodup_eraseDups state.checkExports.errors).imp_of_mem
      fun mem mem' ne first is_first second is_second => ?_)
    obtain ⟨cause, rfl⟩ := Diagnostic.cycle?_eq_some.1 is_first
    obtain ⟨cause', rfl⟩ := Diagnostic.cycle?_eq_some.1 is_second
    have mem := State.inheritanceCycle_mem_result.1 mem
    have mem' := State.inheritanceCycle_mem_result.1 mem'
    refine cycles.disjoint.forall (mem_filterMap_cycle?.2 ⟨_, mem⟩)
      (mem_filterMap_cycle?.2 ⟨_, mem'⟩) fun same => ne ?_
    -- Two reports of the same classes have the same cause, the first of the classes.
    obtain ⟨head, rest, rfl, rfl, _⟩ := cycles.genuine mem
    obtain ⟨head', rest', same', rfl, _⟩ := cycles.genuine mem'
    rw [← same] at same' ⊢
    rw [(List.cons.inj same').1]
  · obtain ⟨classes, cause, mem, connected⟩ := cycles.complete (touched name inside loops) loops
    exact ⟨classes, cause, State.inheritanceCycle_mem_result.2 mem, connected⟩

/-- The reported cycles are exact in every state that a run comes to, and in the result of every
analysis. -/
theorem cycles_exact (allow : Bool) (requirement : Requirement) (loader : Loader) :
    (∀ {state}, loader.Reaches allow requirement state →
      CyclesExact loader.knows (fun name => state.status? name = some .failed) state.errors) ∧
    ∀ {analysis after}, analyze allow requirement loader = (.ok analysis, after) →
      CyclesExact loader.knows (analysis.Touches loader requirement) analysis.errors := by
  refine ⟨fun reaches => reaches.reportsCycles.toCyclesExact, fun {analysis after} ends => ?_⟩
  rcases analyze_course ends with ⟨empty, refused⟩ | ⟨history, state, course, settled, rfl⟩
  · have none_reported : ∀ error ∈ analysis.errors, error.cycle? = none := by
      rcases refused with ⟨none, _⟩ | ⟨root, _⟩
      · simp [none]
      · rcases List.mem_pair.1 root with root | root <;> simp [root, Diagnostic.cycle?]
    refine ⟨fun mem => ?_, ?_, fun touches => absurd empty touches.1⟩
    · cases none_reported _ mem
    · rw [List.filterMap_eq_nil_iff.2 none_reported]
      exact List.Pairwise.nil
  · refine course.reaches.reportsCycles.result fun name touches loops => ?_
    rcases course.isSettledClass_of_touches settled touches with ⟨cls, found⟩ | failed
    · exact absurd loops (course.inOrder.valid.follows.links found).not_extends_itself
    · exact failed

/-- Requiring the class below the cycle looks at the classes on it. -/
theorem exists_touches_cyclic :
    ∃ analysis after, analyze true (.typeData "test" ⟨"C"⟩) (Loader.ofDecls cyclic) =
        (.ok analysis, after) ∧
      analysis.Touches (Loader.ofDecls cyclic) (.typeData "test" ⟨"C"⟩) ⟨"A"⟩ := by
  let requirement : Requirement := .typeData "test" ⟨"C"⟩
  have told : (analyze true requirement (Loader.ofDecls cyclic)).1.toOption.map
      (fun analysis => analysis.classes.isEmpty) = some false := by decide +kernel
  obtain ⟨analysis, after, ends, nonempty⟩ := exists_of_toOption_map told
  let task : Task :=
    { cls := ⟨"C"⟩, action := .fulfil (.use .typeData), cause := .component "test" }
  have required : task ∈ requirement.tasks false := List.mem_singleton_self _
  refine ⟨analysis, after, ends, fun empty => ?_, .parent (.demanded (.required required))
    (Universe.extends_of_mem_parents (by decide +kernel))⟩
  rw [empty, Std.ExtTreeMap.isEmpty_empty] at nonempty
  cases nonempty

/-- The cycle above the required class is reported. -/
theorem cycles_exact_cyclic :
    ∃ analysis after, analyze true (.typeData "test" ⟨"C"⟩) (Loader.ofDecls cyclic) =
        (.ok analysis, after) ∧
      ∃ classes cause, .inheritanceCycle classes cause ∈ analysis.errors ∧
        ∀ member ∈ classes, (Loader.ofDecls cyclic).knows.Connected ⟨"A"⟩ member := by
  obtain ⟨analysis, after, ends, touches⟩ := exists_touches_cyclic
  have exact_ := (cycles_exact true (.typeData "test" ⟨"C"⟩) (Loader.ofDecls cyclic)).2 ends
  have up : (Loader.ofDecls cyclic).knows.Extends ⟨"A"⟩ ⟨"B"⟩ :=
    Universe.extends_of_mem_parents (by decide +kernel)
  have down : (Loader.ofDecls cyclic).knows.Extends ⟨"B"⟩ ⟨"A"⟩ :=
    Universe.extends_of_mem_parents (by decide +kernel)
  exact ⟨analysis, after, ends, exact_.complete touches (.tail (.single up) down)⟩

end ClassLinker
