import ClassLinker.Proofs.Steps

/-!
# Linking one class

`LinkStep setting state next` is a step that links a loaded class and reports what is wrong with its
parents, fails a class below one that has failed, or fails the classes of an inheritance cycle and
reports it. Such steps settle loaded classes and leave all others as they are
(`LinkSteps.progress`).

* `State.linkPresent_eq`: checking the parents and computing the ancestors gives the class that
  `ClassSummary.linkedAs` describes, with the errors of `ClassSummary.linkErrors`;
* `State.changes_failCycle`: the classes of a cycle fail one after the other;
* `State.linkSteps_linkOne`: a class whose parents are settled gets settled.
-/

namespace ClassLinker

variable {setting : Setting} {state next : State}
variable {name other : ClassName} {cls record : ClassRecord} {summary : ClassSummary}

/-- The parents that the summary of a class names are there and of accepted kinds, and there is a
super class if there must be one. -/
structure ClassSummary.IsSound (summary : ClassSummary) (name : ClassName)
    (parents : ClassName → ClassRecord) : Prop where
  declared : summary.kind.needsSuperClass = true → name ≠ .object →
    ∃ parent, summary.superClass = some parent
  superClass : ∀ {parent}, summary.superClass = some parent →
    (parents parent).isPresent = true ∧
      summary.kind.mayExtend parent (parents parent).kind = true
  interfaces : ∀ {interface}, interface ∈ summary.interfaces →
    (parents interface).isPresent = true ∧
      (parents interface).kind = summary.kind.implementedKind

/-- None of the errors says that a method is missing. -/
def Silent (errors : List Diagnostic) : Prop :=
  ∀ id cause, .missingMethod id cause ∉ errors

theorem Silent.nil : Silent [] := fun _ _ mem => by cases mem

/-- What linking a class reports is that it has no super class, or that a parent is missing or of a
wrong kind. -/
theorem ClassSummary.linkError_cases {parents : ClassName → ClassRecord} {error : Diagnostic}
    (mem : error ∈ summary.linkErrors name parents) :
    (∃ kind, error = .missingSuperClass name kind (.cls name)) ∨
      (∃ parent, error = .missingClass parent (.cls name)) ∨
      (∃ parent parentKind kind,
        error = .invalidSuperClass parent parentKind name kind (.cls name)) ∨
      ∃ parent parentKind kind,
        error = .invalidInterface parent parentKind name kind (.cls name) := by
  rcases List.mem_append.1 mem with mem | mem
  · unfold superClassErrors at mem
    split at mem
    · split at mem
      · exact .inl ⟨_, List.mem_singleton.1 mem⟩
      · cases mem
    · split at mem
      · exact .inr (.inl ⟨_, List.mem_singleton.1 mem⟩)
      · split at mem
        · cases mem
        · exact .inr (.inr (.inl ⟨_, _, _, List.mem_singleton.1 mem⟩))
  · obtain ⟨interface, _, mem⟩ := List.mem_flatMap.1 mem
    split at mem
    · exact .inr (.inl ⟨_, List.mem_singleton.1 mem⟩)
    · split at mem
      · cases mem
      · exact .inr (.inr (.inr ⟨_, _, _, List.mem_singleton.1 mem⟩))

/-- What is reported about the parents of a class is due to the class. -/
theorem ClassSummary.cause?_of_mem_linkErrors {parents : ClassName → ClassRecord}
    {error : Diagnostic} (mem : error ∈ summary.linkErrors name parents) :
    error.cause? = some (.cls name) := by
  rcases linkError_cases mem with ⟨_, rfl⟩ | ⟨_, rfl⟩ | ⟨_, _, _, rfl⟩ | ⟨_, _, _, rfl⟩ <;> rfl

/-- It is not about methods. -/
theorem ClassSummary.silent_linkErrors (summary : ClassSummary) (name : ClassName)
    (parents : ClassName → ClassRecord) : Silent (summary.linkErrors name parents) := by
  intro id cause mem
  rcases linkError_cases mem with ⟨_, same⟩ | ⟨_, same⟩ | ⟨_, _, _, same⟩ | ⟨_, _, _, same⟩ <;>
    cases same

/-- Where nothing is reported about the parents of a class, they are as they should be. -/
theorem ClassSummary.isSound_of_linkErrors {parents : ClassName → ClassRecord}
    (clean : summary.linkErrors name parents = []) : summary.IsSound name parents := by
  obtain ⟨super, interfaces⟩ := List.append_eq_nil_iff.1 clean
  unfold superClassErrors at super
  refine ⟨fun needs ne => ?_, fun {parent} declared => ?_, fun {interface} mem => ?_⟩
  · cases declared : summary.superClass with
    | none => simp [declared, needs, ne] at super
    | some parent => exact ⟨parent, rfl⟩
  · rw [declared] at super
    by_contra unsound
    cases present : (parents parent).isPresent <;> simp_all
  · have passes := List.flatMap_eq_nil_iff.1 interfaces interface mem
    by_contra unsound
    cases present : (parents interface).isPresent <;> simp_all

/-- A step that settles classes that are loaded. A class is linked once its parents are, or fails
below one that has failed, and the classes of an inheritance cycle fail together. -/
inductive LinkStep (setting : Setting) (state : State) : State → Prop
  | absent {name : ClassName} {parked : List Task}
      (status : state.status? name = some (.loaded none parked)) :
      LinkStep setting state (state.revise name (.absent name) parked [])
  | link {name : ClassName} {summary : ClassSummary} {parked : List Task}
      (parents : ClassName → ClassRecord)
      (status : state.status? name = some (.loaded (some summary) parked))
      (above : ∀ parent ∈ summary.parents, state.class? parent = some (parents parent))
      (root : name ≠ .object → ∃ record, state.class? .object = some record) :
      LinkStep setting state (state.revise name (summary.linkedAs name parents) parked
        (summary.linkErrors name parents))
  | fail {name parent : ClassName} {summary : ClassSummary} {parked : List Task}
      (status : state.status? name = some (.loaded (some summary) parked))
      (unlinkable : ∀ cls, ¬ setting.world.Links name cls) (reported : state.errors ≠ [])
      (above : ∀ parent ∈ summary.parents, state.IsSettledClass parent)
      (mem : parent ∈ summary.parents) (failed : state.status? parent = some .failed) :
      LinkStep setting state (state.setStatus name .failed)
  | cycle {first : ClassName} {rest : List ClassName} (cycle : setting.world.IsCycle first rest)
      (loaded : ∀ name ∈ first :: rest,
        ∃ summary parked, state.status? name = some (.loaded (some summary) parked))
      (above : ∀ name ∈ first :: rest, ∀ parent ∈ state.openParents name,
        state.isAvailable parent = true) :
      LinkStep setting state (state.failCycle (first :: rest) first)

/-- Some steps that settle classes. -/
abbrev LinkSteps (setting : Setting) : State → State → Prop :=
  Relation.ReflTransGen (LinkStep setting)

/-- Loaded classes may have been settled, and nothing else has happened. -/
structure State.Progresses (before after : State) : Prop where
  wanted : after.wanted = before.wanted
  unlinked : after.unlinked = before.unlinked
  status : ∀ name, after.status? name = before.status? name ∨
    before.isLoaded name = true ∧ after.IsSettledClass name

namespace State

/-- The classes of a cycle fail, and the others stay as they are. -/
theorem status?_failCycle (state : State) (classes : List ClassName) (closing name : ClassName) :
    (state.failCycle classes closing).status? name =
      if name ∈ classes then some .failed else state.status? name := by
  show (classes.foldl (fun state name => state.setStatus name .failed) state).status? name = _
  induction classes generalizing state with
  | nil => rfl
  | cons first rest ih =>
    rw [List.foldl_cons, ih, status?_setStatus]
    by_cases later : name ∈ rest
    · rw [if_pos later, if_pos (List.mem_cons_of_mem _ later)]
    · by_cases same : first = name
      · subst same
        rw [if_neg later, if_pos rfl, if_pos List.mem_cons_self]
      · rw [if_neg later, if_neg same, if_neg]
        exact fun mem => (List.mem_cons.1 mem).elim (fun h => same h.symm) later

/-- After a cycle has failed, a class is one of the cycle or has the status it had. -/
theorem status_of_failCycle {state : State} {classes : List ClassName} {closing name : ClassName}
    {status : Status} (h : (state.failCycle classes closing).status? name = some status) :
    name ∈ classes ∧ status = .failed ∨ state.status? name = some status := by
  rw [status?_failCycle] at h
  split at h
  · rename_i mem
    exact .inl ⟨mem, (Option.some.inj h).symm⟩
  · exact .inr h

/-- Apart from that, the cycle is reported. -/
theorem failCycle_eq (state : State) (classes : List ClassName) (closing : ClassName) :
    state.failCycle classes closing =
      { state with
        table := (state.failCycle classes closing).table
        errors := state.errors ++ [.inheritanceCycle classes (.cls closing)] } := by
  have kept : ∀ classes : List ClassName,
      classes.foldl (fun state name => state.setStatus name .failed) state =
        { state with
          table :=
            (classes.foldl (fun state name => state.setStatus name .failed) state).table } := by
    intro classes
    induction classes generalizing state with
    | nil => rfl
    | cons first rest ih => exact ih (state.setStatus first .failed)
  unfold failCycle report
  rw [kept classes]

theorem errors_failCycle (state : State) (classes : List ClassName) (closing : ClassName) :
    (state.failCycle classes closing).errors =
      state.errors ++ [.inheritanceCycle classes (.cls closing)] := by
  rw [failCycle_eq]

/-- No class of a cycle has been linked. -/
theorem class?_failCycle {classes : List ClassName} (closing : ClassName)
    (loaded : ∀ name ∈ classes,
      ∃ summary parked, state.status? name = some (.loaded (some summary) parked)) :
    (state.failCycle classes closing).class? = state.class? := by
  funext name
  unfold class?
  rw [status?_failCycle]
  split
  · rename_i mem
    obtain ⟨_, _, status⟩ := loaded name mem
    rw [status]
    rfl
  · rfl

/-- The cycle can be reported before its classes fail one after the other. -/
theorem changes_failCycle {classes : List ClassName} (nodup : classes.Nodup)
    (loaded : ∀ name ∈ classes,
      ∃ summary parked, state.status? name = some (.loaded (some summary) parked))
    (unlinkable : ∀ name ∈ classes, ∀ cls, ¬ setting.world.Links name cls) (closing : ClassName) :
    Changes setting state (state.failCycle classes closing) := by
  have commutes : ∀ (classes : List ClassName) (state : State) (error : Diagnostic),
      (classes.foldl (fun state name => state.setStatus name .failed) state).report error =
        classes.foldl (fun state name => state.setStatus name .failed)
          (state.extend [] [error]) := by
    intro classes
    induction classes with
    | nil => exact report_eq
    | cons first rest ih => exact fun state error => ih (state.setStatus first .failed) error
  have fails : ∀ (classes : List ClassName) (state : State), classes.Nodup →
      (∀ name ∈ classes,
        ∃ summary parked, state.status? name = some (.loaded (some summary) parked)) →
      (∀ name ∈ classes, ∀ cls, ¬ setting.world.Links name cls) → state.errors ≠ [] →
        Changes setting state
          (classes.foldl (fun state name => state.setStatus name .failed) state) := by
    intro classes
    induction classes with
    | nil => exact fun _ _ _ _ _ => .refl
    | cons first rest ih =>
      intro state nodup loaded unlinkable reported
      obtain ⟨fresh, nodup⟩ := List.nodup_cons.1 nodup
      obtain ⟨summary, parked, status⟩ := loaded first List.mem_cons_self
      refine .head (.fail status (unlinkable first List.mem_cons_self) reported)
        (ih (state.setStatus first .failed) nodup (fun name mem => ?_)
          (fun name mem => unlinkable name (List.mem_cons_of_mem _ mem)) reported)
      rw [status?_setStatus, if_neg (by rintro rfl; exact fresh mem)]
      exact loaded name (List.mem_cons_of_mem _ mem)
  unfold failCycle
  rw [commutes]
  exact .head (.extend _ fun _ mem => by cases mem)
    (fails classes (state.extend [] _) nodup loaded unlinkable
      (List.append_ne_nil_of_right_ne_nil _ (List.cons_ne_nil _ _)))

end State

theorem LinkStep.changes (step : LinkStep setting state next) : Changes setting state next := by
  cases step with
  | absent status => exact .single (.absent status)
  | link parents status above root => exact .single (.link parents status above root)
  | fail status unlinkable reported => exact .single (.fail status unlinkable reported)
  | cycle cycle loaded =>
    exact State.changes_failCycle cycle.nodup loaded
      (fun name mem cls => Universe.Links.not_of_cycle cycle mem) _

theorem LinkSteps.changes (steps : LinkSteps setting state next) : Changes setting state next := by
  induction steps with
  | refl => exact .refl
  | tail _ step ih => exact ih.trans step.changes

namespace State

theorem isLoaded_of_status {summary : Option ClassSummary} {parked : List Task}
    (status : state.status? name = some (.loaded summary parked)) : state.isLoaded name = true :=
  isLoaded_iff.2 ⟨summary, parked, status⟩

theorem IsSettledClass.isAvailable (settled : state.IsSettledClass name) :
    state.isAvailable name = true := by
  unfold State.isAvailable
  rcases settled with ⟨cls, found⟩ | failed
  · rw [class?_eq_some.1 found]
  · rw [failed]

theorem IsSettledClass.not_loaded (settled : state.IsSettledClass name) :
    ¬ state.isLoaded name = true := by
  intro loaded
  obtain ⟨summary, parked, h⟩ := isLoaded_iff.1 loaded
  rcases settled with ⟨cls, found⟩ | failed
  · rw [class?_eq_some.1 found] at h; cases h
  · rw [failed] at h; cases h

namespace Progresses

theorem refl (state : State) : state.Progresses state := ⟨rfl, rfl, fun _ => .inl rfl⟩

theorem settled {before after : State} (progress : before.Progresses after)
    (settled : before.IsSettledClass name) : after.IsSettledClass name := by
  rcases progress.status name with same | ⟨loaded, _⟩
  · unfold IsSettledClass class? at settled ⊢
    rwa [same]
  · exact absurd loaded settled.not_loaded

theorem trans {first second third : State} (early : first.Progresses second)
    (late : second.Progresses third) : first.Progresses third where
  wanted := late.wanted.trans early.wanted
  unlinked := late.unlinked.trans early.unlinked
  status name := by
    rcases early.status name with same | ⟨loaded, settled⟩
    · rcases late.status name with same' | ⟨loaded, settled⟩
      · exact .inl (same'.trans same)
      · refine .inr ⟨?_, settled⟩
        unfold isLoaded at loaded ⊢
        rwa [← same]
    · exact .inr ⟨loaded, late.settled settled⟩

/-- What is loaded has been loaded before, with the same summary. -/
theorem status_eq {before after : State} (progress : before.Progresses after)
    (loaded : after.isLoaded name = true) : after.status? name = before.status? name := by
  rcases progress.status name with same | ⟨_, settled⟩
  · exact same
  · exact absurd loaded settled.not_loaded

theorem isLoaded {before after : State} (progress : before.Progresses after)
    (loaded : after.isLoaded name = true) : before.isLoaded name = true := by
  have same := progress.status_eq loaded
  unfold State.isLoaded at loaded ⊢
  rwa [← same]

theorem isAvailable {before after : State} (progress : before.Progresses after)
    (available : before.isAvailable name = true) : after.isAvailable name = true := by
  rcases progress.status name with same | ⟨_, settled⟩
  · unfold State.isAvailable at available ⊢
    rwa [same]
  · exact settled.isAvailable

theorem openParents_subset {before after : State} (progress : before.Progresses after)
    (name : ClassName) : after.openParents name ⊆ before.openParents name := by
  intro parent mem
  have loaded : after.isLoaded name = true := by
    unfold openParents at mem
    split at mem
    · rename_i h; exact isLoaded_of_status h
    · cases mem
  unfold openParents at mem ⊢
  rwa [← progress.status_eq loaded]

end Progresses

end State

theorem LinkStep.progress (step : LinkStep setting state next) : state.Progresses next := by
  have revised : ∀ {name record tasks errors}, state.isLoaded name = true →
      state.Progresses (state.revise name record tasks errors) := by
    intro name record tasks errors loaded
    refine ⟨rfl, rfl, fun other => ?_⟩
    by_cases same : name = other
    · subst same
      exact .inr ⟨loaded, .inl ⟨record, by rw [State.class?_revise, if_pos rfl]⟩⟩
    · exact .inl (by rw [State.status?_revise, if_neg same])
  cases step with
  | absent status => exact revised (State.isLoaded_of_status status)
  | link _ status => exact revised (State.isLoaded_of_status status)
  | @fail name _ _ _ status =>
    refine ⟨rfl, rfl, fun other => ?_⟩
    by_cases same : name = other
    · subst same
      exact .inr ⟨State.isLoaded_of_status status,
        .inr (by rw [State.status?_setStatus, if_pos rfl])⟩
    · exact .inl (by rw [State.status?_setStatus, if_neg same])
  | cycle _ loaded =>
    refine ⟨by rw [State.failCycle_eq], by rw [State.failCycle_eq], fun other => ?_⟩
    rw [State.status?_failCycle]
    split
    · rename_i mem
      obtain ⟨_, _, status⟩ := loaded other mem
      exact .inr ⟨State.isLoaded_of_status status,
        .inr (by rw [State.status?_failCycle, if_pos mem])⟩
    · exact .inl rfl

theorem LinkSteps.progress (steps : LinkSteps setting state next) : state.Progresses next := by
  induction steps with
  | refl => exact .refl _
  | tail _ step ih => exact ih.trans step.progress

/-! ### Checking the parents -/

namespace State

theorem extend_extend (first second : List Diagnostic) :
    (state.extend [] first).extend [] second = state.extend [] (first ++ second) := by
  simp [extend]

/-- The super class that a class keeps, and what is wrong with the declared one. -/
theorem checkSuperClass_eq (parents : ClassName → ClassRecord)
    (above : ∀ parent, summary.superClass = some parent →
      state.class? parent = some (parents parent)) :
    state.checkSuperClass name summary.kind summary.superClass =
      (summary.keptSuperClass name parents,
        state.extend [] (summary.superClassErrors name parents)) := by
  unfold ClassSummary.keptSuperClass ClassSummary.superClassErrors
  cases declared : summary.superClass with
  | none =>
    simp only [checkSuperClass, Option.bind_none]
    split <;> simp only [report_eq, extend_nil]
  | some parent =>
    simp only [checkSuperClass, above parent declared, Option.bind_some]
    cases (parents parent).isPresent with
    | false => simp only [Bool.not_false, if_true, Bool.true_or, report_eq]
    | true =>
      simp only [Bool.not_true, Bool.false_eq_true, if_false, Bool.false_or]
      split <;> simp only [report_eq, extend_nil]

/-- The interfaces that a class keeps, and what is wrong with the declared ones. -/
theorem checkInterfaces_eq (parents : ClassName → ClassRecord)
    (above : ∀ interface ∈ summary.interfaces,
      state.class? interface = some (parents interface)) :
    state.checkInterfaces name summary.kind summary.interfaces =
      (summary.keptInterfaces parents,
        state.extend [] (summary.interfaceErrors name parents)) := by
  unfold ClassSummary.keptInterfaces ClassSummary.interfaceErrors
  generalize summary.interfaces = interfaces at above ⊢
  induction interfaces generalizing state with
  | nil => simp only [checkInterfaces, List.filter_nil, List.flatMap_nil, extend_nil]
  | cons interface rest ih =>
    have later : ∀ {next : State}, next.class? = state.class? → ∀ other ∈ rest,
        next.class? other = some (parents other) := fun same other mem =>
      same ▸ above other (List.mem_cons_of_mem _ mem)
    simp only [checkInterfaces, above interface List.mem_cons_self, List.filter_cons,
      List.flatMap_cons]
    cases present : (parents interface).isPresent with
    | false =>
      have rest_eq := ih (@later (state.report (.missingClass interface (.cls name))) rfl)
      simp only [Bool.not_false, if_true, Bool.true_or, rest_eq]
      rw [report_eq, extend_extend]
    | true =>
      simp only [Bool.not_true, Bool.false_eq_true, if_false, Bool.false_or, decide_eq_true_eq]
      split
      · rw [ih (later rfl), List.nil_append]
      · have rest_eq := ih (@later (state.report (.invalidInterface interface
          (parents interface).kind name summary.kind (.cls name))) rfl)
        rw [rest_eq, report_eq, extend_extend]

/-- A class whose parents are linked is linked as its summary and they describe, and what is wrong
with them is reported. -/
theorem linkPresent_eq (valid : state.Valid setting) (fair : setting.IsFair)
    (parents : ClassName → ClassRecord)
    (above : ∀ parent ∈ summary.parents, state.class? parent = some (parents parent))
    (root : name ≠ .object → ∃ record, state.class? .object = some record)
    (parked : List Task) :
    (state.linkPresent name summary).addTasks parked =
      state.revise name (summary.linkedAs name parents) parked
        (summary.linkErrors name parents) := by
  let first := summary.superClassErrors name parents
  let second := summary.interfaceErrors name parents
  have super : state.checkSuperClass name summary.kind summary.superClass =
      (summary.keptSuperClass name parents, state.extend [] first) :=
    checkSuperClass_eq parents fun parent declared =>
      above parent (by simp [ClassSummary.parents, declared])
  have interfaces : (state.extend [] first).checkInterfaces name summary.kind summary.interfaces =
      (summary.keptInterfaces parents, (state.extend [] first).extend [] second) :=
    checkInterfaces_eq parents fun interface mem => above interface (List.mem_append_right _ mem)
  have ancestors : ∀ parent ∈ summary.keptParents name parents,
      ((state.extend [] first).extend [] second).ancestors parent =
        ClassSummary.ancestorsThrough parents parent := by
    intro parent kept
    show state.ancestors parent = _
    unfold ClassSummary.ancestorsThrough State.ancestors
    by_cases is_object : parent = .object
    · subst is_object
      have linked : ∃ record, state.class? .object = some record := by
        rcases ClassSummary.mem_parents_of_kept kept with declared | ⟨_, ne⟩
        · exact ⟨_, above _ declared⟩
        · exact root ne
      obtain ⟨record, found⟩ := linked
      have shape := (valid.follows.links found).object_eq fair.rooted
      have ancestors : record.ancestors = [.object] := shape.2.2.1
      rw [found, if_pos rfl]
      exact ancestors
    · rw [if_neg is_object]
      rcases ClassSummary.mem_parents_of_kept kept with declared | ⟨h, _⟩
      · rw [above parent declared]
      · exact absurd h is_object
  have through : ((summary.keptSuperClass name parents).toList ++
      summary.keptInterfaces parents).map ((state.extend [] first).extend [] second).ancestors =
        (summary.keptParents name parents).map (ClassSummary.ancestorsThrough parents) :=
    List.map_congr_left ancestors
  simp only [linkPresent, super, interfaces, through]
  simp [addTasks, revise, setClass, setStatus, extend, ClassSummary.linkedAs,
    ClassSummary.linkErrors, first, second]

/-! ### Settling one class -/

/-- The root class is linked, or is the only class that is loaded. -/
def RootFirst (state : State) : Prop :=
  ∀ name, state.isLoaded name = true → name ≠ .object →
    ∃ record, state.class? .object = some record

theorem RootFirst.mono (first : state.RootFirst)
    (isLoaded : ∀ {name}, next.isLoaded name = true → state.isLoaded name = true)
    (grows : state.Grows next) : next.RootFirst := by
  intro name loaded ne
  obtain ⟨record, found⟩ := first name (isLoaded loaded) ne
  obtain ⟨later, found', _⟩ := grows.classes found
  exact ⟨later, found'⟩

/-- A class whose parents are settled gets settled. -/
theorem linkSteps_linkOne (fair : setting.IsFair) (valid : state.Valid setting)
    (first : state.RootFirst) (loaded : state.isLoaded name = true)
    (parents : ∀ parent ∈ state.openParents name, state.IsSettledClass parent) :
    LinkSteps setting state (state.linkOne name) ∧ (state.linkOne name).IsSettledClass name ∧
      ∀ other, other ≠ name → (state.linkOne name).status? other = state.status? other := by
  have revised : ∀ {record tasks errors},
      (state.revise name record tasks errors).IsSettledClass name ∧
        ∀ other, other ≠ name →
          (state.revise name record tasks errors).status? other = state.status? other := by
    intro record tasks errors
    refine ⟨.inl ⟨record, by rw [class?_revise, if_pos rfl]⟩, fun other ne => ?_⟩
    rw [status?_revise, if_neg ne.symm]
  obtain ⟨summary, parked, status⟩ := isLoaded_iff.1 loaded
  cases summary with
  | none =>
    have same : state.linkOne name = state.revise name (.absent name) parked [] := by
      simp only [linkOne, status]
      simp [addTasks, revise, setClass, setStatus]
    rw [same]
    exact ⟨.single (.absent status), revised⟩
  | some summary =>
    have declared : state.openParents name = summary.parents := by
      simp only [openParents, status]
    rw [declared] at parents
    by_cases failing : summary.parents.any state.hasFailed = true
    · have same : state.linkOne name = state.setStatus name .failed := by
        simp only [linkOne, status, failing, if_true]
      rw [same]
      obtain ⟨parent, mem, failed⟩ := List.any_eq_true.1 failing
      have failed : state.status? parent = some .failed := of_decide_eq_true failed
      refine ⟨.single (.fail status (fun cls links => ?_) (valid.reported failed) parents mem
          failed),
        .inr (by rw [status?_setStatus, if_pos rfl]), fun other ne => ?_⟩
      · cases links with
        | absent unknown => rw [← valid.loaded status] at unknown; cases unknown
        | present linked known above =>
          obtain rfl := Option.some.inj ((valid.loaded status).trans known)
          exact valid.failed failed _ (above parent mem)
      · rw [status?_setStatus, if_neg ne.symm]
    · have above : ∀ parent ∈ summary.parents,
          state.class? parent = some ((state.class? parent).getD (.absent parent)) := by
        intro parent mem
        rcases parents parent mem with ⟨cls, found⟩ | failed
        · rw [found]; rfl
        · refine absurd (List.any_eq_true.2 ⟨parent, mem, ?_⟩) failing
          exact decide_eq_true failed
      have root := first name loaded
      have same : state.linkOne name = _ := (by
        simp only [linkOne, status, failing]
        exact linkPresent_eq valid fair _ above root parked)
      rw [same]
      exact ⟨.single (.link _ status above root), revised⟩

end State

end ClassLinker
