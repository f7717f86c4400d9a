import ClassLinker.Proofs.Mirrors

/-!
# Runs that do the same

States that mirror each other link the same classes and ask for the same summaries, and the tasks
that wait for a class come on the list at the same time.

* `State.Mirrors.linkAvailable` is for linking, with a lemma for each of its stages;
* `State.Mirrors.loadWanted`: both states load the same classes, and fail together;
* `State.Mirrors.linkedClasses_eq` and `State.Mirrors.classes_result`: they know the same classes in
  the end.
-/

namespace ClassLinker

/-- Both fail for the same reason, or lead to states that agree. -/
inductive Leeway.Concur {ε : Type} (leeway : Leeway) : Except ε State → Except ε State → Prop
  | ok {state mirror : State} (mirrors : state.Mirrors leeway mirror) :
      Leeway.Concur leeway (.ok state) (.ok mirror)
  | error (error : ε) : Leeway.Concur leeway (.error error) (.error error)

namespace State.Mirrors

variable {leeway : Leeway} {state mirror : State} (mirrors : state.Mirrors leeway mirror)

include mirrors

/-! ### What both states find -/

theorem openParents_eq : mirror.openParents = state.openParents := by
  funext name
  unfold openParents
  rcases mirrors.status_cases name with ⟨new, new'⟩ | ⟨_, _, at_, at', same⟩
  · rw [new, new']
  · rw [at_, at']
    cases same with
    | loaded summary => cases summary <;> rfl
    | awaited | linked | failed => rfl

theorem isLoaded_eq : mirror.isLoaded = state.isLoaded := by
  funext name
  unfold isLoaded
  rcases mirrors.status_cases name with ⟨new, new'⟩ | ⟨_, _, at_, at', same⟩
  · rw [new, new']
  · rw [at_, at']
    cases same <;> rfl

theorem isAvailable_eq : mirror.isAvailable = state.isAvailable := by
  funext name
  unfold isAvailable
  rcases mirrors.status_cases name with ⟨new, new'⟩ | ⟨_, _, at_, at', same⟩
  · rw [new, new']
  · rw [at_, at']
    cases same <;> rfl

theorem hasFailed_eq : mirror.hasFailed = state.hasFailed := by
  funext name
  unfold hasFailed
  rcases mirrors.status_cases name with ⟨new, new'⟩ | ⟨_, _, at_, at', same⟩
  · rw [new, new']
  · rw [at_, at']
    cases same <;> simp

theorem ancestors_eq : mirror.ancestors = state.ancestors := by
  funext name
  simp only [ancestors, mirrors.class?_eq]

theorem lineage_eq (name : ClassName) : mirror.lineage name = state.lineage name := by
  have keys : mirror.table.keys = state.table.keys := by
    have same := congrArg Std.ExtTreeMap.keys mirrors.records_eq
    rwa [Std.ExtTreeMap.keys_map, Std.ExtTreeMap.keys_map] at same
  simp only [lineage, knownNames, keys, mirrors.openParents_eq]

/-! ### Asking for classes -/

theorem await (name : ClassName) {held held' : List Task} (parked : leeway.parked held held') :
    (state.await name held).Mirrors leeway (mirror.await name held') :=
  { mirrors.setStatus name (.awaited parked) with
    wanted := congrArg (· ++ [name]) mirrors.wanted }

theorem request (name : ClassName) :
    (state.request name).Mirrors leeway (mirror.request name) := by
  unfold State.request
  rcases mirrors.status_cases name with ⟨new, new'⟩ | ⟨_, _, at_, at', same⟩
  · rw [new, new']
    exact mirrors.await name leeway.idle
  · rw [at_, at']
    exact mirrors

theorem awaitParents (name : ClassName) :
    leeway.Agree (state.awaitParents name) (mirror.awaitParents name) := by
  unfold State.awaitParents
  simp only [mirrors.lineage_eq, mirrors.isAvailable_eq]
  exact ⟨rfl, mirrors.foldl (fun name same => same.request name) _⟩

/-! ### Linking -/

theorem checkSuperClass (name : ClassName) (kind : ClassKind) (superClass : Option ClassName) :
    leeway.Agree (state.checkSuperClass name kind superClass)
      (mirror.checkSuperClass name kind superClass) := by
  cases superClass with
  | none =>
    simp only [State.checkSuperClass]
    split
    · exact ⟨rfl, mirrors.report _⟩
    · exact ⟨rfl, mirrors⟩
  | some parent =>
    simp only [State.checkSuperClass]
    rw [mirrors.class?_eq]
    cases state.class? parent with
    | none => exact ⟨rfl, mirrors⟩
    | some cls =>
      simp only
      split
      · exact ⟨rfl, mirrors.report _⟩
      · split
        · exact ⟨rfl, mirrors⟩
        · exact ⟨rfl, mirrors.report _⟩

theorem checkInterfaces (name : ClassName) (kind : ClassKind) (interfaces : List ClassName) :
    leeway.Agree (state.checkInterfaces name kind interfaces)
      (mirror.checkInterfaces name kind interfaces) := by
  induction interfaces generalizing state mirror with
  | nil => exact ⟨rfl, mirrors⟩
  | cons interface rest ih =>
    simp only [State.checkInterfaces, mirrors.class?_eq]
    split
    · exact ih mirrors
    · split
      · obtain ⟨kept, same⟩ := ih (mirrors.report (.missingClass interface (.cls name)))
        exact ⟨congrArg (interface :: ·) kept, same⟩
      · split
        · obtain ⟨kept, same⟩ := ih mirrors
          exact ⟨congrArg (interface :: ·) kept, same⟩
        · exact ih (mirrors.report _)

theorem linkPresent (name : ClassName) (summary : ClassSummary) :
    (state.linkPresent name summary).Mirrors leeway (mirror.linkPresent name summary) := by
  obtain ⟨superClass, above⟩ := mirrors.checkSuperClass name summary.kind summary.superClass
  obtain ⟨interfaces, checked⟩ := above.checkInterfaces name summary.kind summary.interfaces
  simp only [State.linkPresent, superClass, interfaces, checked.ancestors_eq]
  exact checked.setClass name _

theorem linkOne (name : ClassName) :
    (state.linkOne name).Mirrors leeway (mirror.linkOne name) := by
  have released : ∀ {state mirror : State} {held held' : List Task},
      state.Mirrors leeway mirror → leeway.parked held held' →
        (state.addTasks held).Mirrors leeway (mirror.addTasks held') := fun same parked =>
    { same with work := leeway.release same.work parked }
  unfold State.linkOne
  rcases mirrors.status_cases name with ⟨new, new'⟩ | ⟨_, _, at_, at', same⟩
  · rw [new, new']
    exact mirrors
  · rw [at_, at']
    cases same with
    | loaded summary parked =>
      cases summary with
      | none => exact released (mirrors.setClass name _) parked
      | some summary =>
        simp only [mirrors.hasFailed_eq]
        split
        · exact mirrors.setStatus name .failed
        · exact released (mirrors.linkPresent name summary) parked
    | awaited | linked | failed => exact mirrors

theorem failCycle (classes : List ClassName) (closing : ClassName) :
    (state.failCycle classes closing).Mirrors leeway (mirror.failCycle classes closing) :=
  (mirrors.foldl (fun name same => same.setStatus name .failed) classes).report _

theorem linkParents {visit : ClassName → State → Option ClassName × State}
    (visits : ∀ {state mirror : State} (parent : ClassName), state.Mirrors leeway mirror →
      leeway.Agree (visit parent state) (visit parent mirror))
    (path : List ClassName) (name : ClassName) (parents : List ClassName) :
    leeway.Agree (State.linkParents visit path name parents state)
      (State.linkParents visit path name parents mirror) := by
  induction parents generalizing state mirror with
  | nil => exact ⟨rfl, mirrors.linkOne name⟩
  | cons parent rest ih =>
    simp only [State.linkParents, mirrors.isLoaded_eq]
    split
    · exact ih mirrors
    · split
      · exact ⟨rfl, mirrors.failCycle _ _⟩
      · obtain ⟨start, visited⟩ := visits parent mirrors
        generalize visit parent state = answer, visit parent mirror = answer' at start visited
        obtain ⟨start, state⟩ := answer
        obtain ⟨start', mirror⟩ := answer'
        change start' = _ at start
        subst start
        cases start' with
        | none => exact ih visited
        | some start =>
          simp only
          split
          · exact ih visited
          · exact ⟨rfl, visited⟩

theorem linkAbove (depth : Nat) (path : List ClassName) (name : ClassName) :
    leeway.Agree (State.linkAbove depth path name state)
      (State.linkAbove depth path name mirror) := by
  induction depth generalizing path name state mirror with
  | zero => exact ⟨rfl, mirrors⟩
  | succ depth ih =>
    simp only [State.linkAbove, mirrors.openParents_eq]
    exact mirrors.linkParents (fun parent same => ih same (name :: path) parent) path name _

theorem linkIfReady (name : ClassName) :
    (state.linkIfReady name).Mirrors leeway (mirror.linkIfReady name) := by
  unfold State.linkIfReady
  rw [mirrors.isLoaded_eq]
  split
  · obtain ⟨isReady, asked⟩ := mirrors.awaitParents name
    simp only [isReady, asked.size_eq]
    split
    · exact (asked.linkAbove _ [] name).2
    · exact asked
  · exact mirrors

theorem linkAvailable : state.linkAvailable.Mirrors leeway mirror.linkAvailable := by
  have dropped : { state with unlinked := [] : State }.Mirrors leeway
      { mirror with unlinked := [] } := { mirrors with unlinked := rfl }
  have linked := dropped.foldl (fun name same => same.linkIfReady name) state.unlinked
  simp only [State.linkAvailable, mirrors.unlinked, linked.isLoaded_eq]
  exact { linked with unlinked := rfl }

/-! ### Loading -/

theorem receive (name : ClassName) (summary : Option ClassSummary) :
    (state.receive name summary).Mirrors leeway (mirror.receive name summary) := by
  have loaded : ∀ {held held' : List Task}, leeway.parked held held' →
      { state.setStatus name (.loaded summary held) with
          unlinked := state.unlinked ++ [name] : State }.Mirrors leeway
        { mirror.setStatus name (.loaded summary held') with
          unlinked := mirror.unlinked ++ [name] } := fun parked =>
    { mirrors.setStatus name (.loaded summary parked) with
      unlinked := congrArg (· ++ [name]) mirrors.unlinked }
  unfold State.receive
  rcases mirrors.status_cases name with ⟨new, new'⟩ | ⟨_, _, at_, at', same⟩
  · rw [new, new']
    exact loaded leeway.idle
  · rw [at_, at']
    cases same with
    | awaited parked => exact loaded parked
    | loaded | linked | failed => exact loaded leeway.idle

theorem receiveAll (answers : List (ClassName × Except LoadError (Option ClassSummary))) :
    leeway.Concur (state.receiveAll answers) (mirror.receiveAll answers) := by
  induction answers generalizing state mirror with
  | nil => exact .ok mirrors
  | cons answer rest ih =>
    obtain ⟨name, error | summary⟩ := answer
    · exact .error error
    · exact ih (mirrors.receive name summary)

/-- Both states load the same classes and link the same ones, or neither can load all of them. -/
theorem loadWanted (loader : Loader) :
    leeway.Concur (state.loadWanted loader).1 (mirror.loadWanted loader).1 ∧
      (mirror.loadWanted loader).2 = (state.loadWanted loader).2 := by
  have dropped : { state with wanted := [] : State }.Mirrors leeway
      { mirror with wanted := [] } := { mirrors with wanted := rfl }
  unfold State.loadWanted
  rw [mirrors.wanted]
  refine ⟨?_, rfl⟩
  have received := dropped.receiveAll (state.wanted.zip (loader.loadSummaries state.wanted).1)
  simp only
  generalize State.receiveAll { state with wanted := [] } _ = first,
    State.receiveAll { mirror with wanted := [] } _ = second at received ⊢
  cases received with
  | ok received => exact .ok received.linkAvailable
  | error error => exact .error error

/-! ### Results -/

theorem linkedClasses_eq : mirror.linkedClasses = state.linkedClasses := by
  refine Std.ExtTreeMap.ext_getElem? fun name => ?_
  have same : mirror.class? name = state.class? name := congrFun mirrors.class?_eq name
  unfold class? status? at same
  simpa only [linkedClasses, Std.ExtTreeMap.getElem?_filterMap, Option.pbind_eq_bind] using same

theorem exportOwners_eq : mirror.exportOwners = state.exportOwners := by
  have owners : ∀ state : State, state.exportOwners =
      (state.table.map fun _ status => status.record?).toList.flatMap fun entry =>
        (entry.2.bind ClassRecord.summary).elim [] fun summary =>
          summary.exports.map fun item => (item.name, entry.1) := by
    intro state
    rw [Std.ExtTreeMap.toList_map, List.flatMap_map]
    unfold State.exportOwners
    congr 1
    funext entry
    cases entry.2.record?.bind ClassRecord.summary <;> rfl
  rw [owners, owners, mirrors.records_eq]

theorem checkExports : state.checkExports.Mirrors leeway mirror.checkExports := by
  have conflicts : mirror.conflictingExports = state.conflictingExports := by
    unfold conflictingExports ownersOf
    rw [mirrors.exportOwners_eq]
  unfold State.checkExports
  rw [conflicts]
  refine mirrors.foldl (fun name reported => ?_) _
  simp only [ownersOf, reported.exportOwners_eq]
  exact reported.report _

theorem classes_result : mirror.result.classes = state.result.classes :=
  mirrors.checkExports.linkedClasses_eq

end State.Mirrors

end ClassLinker
