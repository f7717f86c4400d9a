import ClassLinker.Proofs.Turns
import Mathlib.Data.Fintype.Pigeonhole
import Mathlib.Data.Set.Finite.List

/-!
# Where the classes end up

At the end of a run every class that the run has touched is linked or has failed, and the failed
ones are those that inherit from an inheritance cycle, or lie on one (`settle_terminal`).

* `Demanded` and `Touched` tell, of what has been found out in the end, which tasks follow from it,
  and which classes are thereby looked at;
* `State.Rests`: the declared parents of a class that is linked or has failed are available. Every
  turn keeps this so (`Turn.rests`);
* `State.Valid.failed_iff`: since the table is finite, going up from a failed class through failed
  parents leads into a cycle.
-/

namespace ClassLinker

variable {setting : Setting} {state next : State}
variable {name other : ClassName} {cls record : ClassRecord} {task : Task}

/-! ### What a run touches -/

/-- The tasks that follow from what is known of some classes, and from what is asked for. -/
inductive Demanded (classes : Lookup) (requirement : Requirement) (entryPoints : List ClassName) :
    Task → Prop
  | required {task : Task} (mem : task ∈ requirement.tasks false) :
      Demanded classes requirement entryPoints task
  | entry {name : ClassName} (mem : name ∈ entryPoints) :
      Demanded classes requirement entryPoints
        { cls := name, action := .enter, cause := .exports }
  | entered {name : ClassName} {cls : ClassRecord} {task : Task} (entry : name ∈ entryPoints)
      (found : classes name = some cls) (mem : task ∈ State.entryTasks cls) :
      Demanded classes requirement entryPoints task
  | body {name : ClassName} {cls : ClassRecord} {key : MethodKey} {entry : MethodRecord}
      {task : Task} (found : classes name = some cls) (has : cls.method? key = some entry)
      (reached : entry.isReached = true) (mem : task ∈ State.methodTasks cls entry) :
      Demanded classes requirement entryPoints task
  | instances {name : ClassName} {cls : ClassRecord} {task : Task}
      (found : classes name = some cls) (has : cls.hasInstances = true)
      (mem : task ∈ cls.instanceDues) : Demanded classes requirement entryPoints task

/-- The classes that a run looks at: the root class, those that tasks are for, and whatever these
name as parents, directly or further up. -/
inductive Touched (world : Universe) (classes : Lookup) (requirement : Requirement)
    (entryPoints : List ClassName) : ClassName → Prop
  | object : Touched world classes requirement entryPoints .object
  | demanded {task : Task} (demanded : Demanded classes requirement entryPoints task) :
      Touched world classes requirement entryPoints task.cls
  | parent {child parent : ClassName}
      (touched : Touched world classes requirement entryPoints child)
      (declared : world.Extends child parent) :
      Touched world classes requirement entryPoints parent

namespace State

/-! ### Parents -/

/-- The declared parents of every class that is linked or has failed are available. -/
def Rests (setting : Setting) (state : State) : Prop :=
  ∀ name parent, state.IsSettledClass name → setting.world.Extends name parent →
    state.isAvailable parent = true

/-- A class becomes available when its summary is taken in, and then stays so. -/
theorem isAvailable_setStatus {status : Status} (kept : state.isAvailable name = true →
      ∀ parked, status ≠ .awaited parked) (available : state.isAvailable other = true) :
    (state.setStatus name status).isAvailable other = true := by
  by_cases same : name = other
  · subst same
    have kept := kept available
    unfold isAvailable
    rw [status?_setStatus, if_pos rfl]
    cases status with
    | awaited parked => exact absurd rfl (kept parked)
    | loaded | linked | failed => rfl
  · unfold isAvailable at available ⊢
    rwa [status?_setStatus, if_neg same]

theorem exists_of_isAvailable (available : state.isAvailable name = true) :
    ∃ status, state.status? name = some status := by
  unfold isAvailable at available
  cases h : state.status? name with
  | none => rw [h] at available; cases available
  | some status => exact ⟨status, rfl⟩

end State

/-- No step makes an available class unavailable. -/
theorem Change.isAvailable (change : Change setting state next)
    (available : state.isAvailable name = true) : next.isAvailable name = true := by
  have linked : ∀ {other cls}, (state.setClass other cls).isAvailable name = true :=
    State.isAvailable_setStatus (fun _ _ h => by cases h) available
  have unavailable : ∀ {other}, (state.status? other = none ∨
      ∃ parked, state.status? other = some (.awaited parked)) →
        state.isAvailable other = true → False := by
    rintro other (none | ⟨parked, h⟩) available
    · simp [State.isAvailable, none] at available
    · simp [State.isAvailable, h] at available
  cases change with
  | update | absent | link => exact linked
  | extend | queue => exact available
  | @await other parked new =>
    have kept : (state.setStatus other (.awaited parked)).isAvailable name = true :=
      State.isAvailable_setStatus (fun h => (unavailable (.inl new) h).elim) available
    exact kept
  | park status =>
    exact State.isAvailable_setStatus (fun h => (unavailable (.inr ⟨_, status⟩) h).elim) available
  | parkLoaded | fail => exact State.isAvailable_setStatus (fun _ _ h => by cases h) available
  | @receive other =>
    obtain ⟨parked, same, _⟩ := state.receive_eq other (setting.world other)
    have kept : (state.setStatus other
        (.loaded (setting.world other) parked)).isAvailable name = true :=
      State.isAvailable_setStatus (fun _ _ h => by cases h) available
    rw [same]
    exact kept

theorem Moves.isAvailable (moves : Moves setting state next)
    (available : state.isAvailable name = true) : next.isAvailable name = true := by
  induction moves with
  | refl => exact available
  | tail _ move ih =>
    cases move with
    | change change => exact change.isAvailable ih
    | take => exact ih

/-- A class that a link step settles has parents that are available. -/
theorem LinkStep.settled (valid : state.Valid setting) (step : LinkStep setting state next)
    (settled : next.IsSettledClass name) : state.IsSettledClass name ∨
      ∀ parent, setting.world.Extends name parent → state.isAvailable parent = true := by
  have declared : ∀ {name summary parked parent},
      state.status? name = some (.loaded summary parked) → setting.world.Extends name parent →
        ∃ known, summary = some known ∧ parent ∈ known.parents := by
    rintro name summary parked parent status ⟨known, h, mem⟩
    exact ⟨known, (valid.loaded status).trans h, mem⟩
  by_cases same : next.status? name = state.status? name
  · left
    unfold State.IsSettledClass State.class? at settled ⊢
    rwa [← same]
  · right
    intro parent extends_
    have changed : ∀ {changed status}, next.status? name =
        (if changed = name then some status else state.status? name) → changed = name := by
      intro changed status h
      by_contra ne
      exact same (h.trans (if_neg ne))
    cases step with
    | absent status =>
      obtain rfl := changed (State.status?_revise ..)
      obtain ⟨_, h, _⟩ := declared status extends_
      cases h
    | link parents status above =>
      obtain rfl := changed (State.status?_revise ..)
      obtain ⟨_, h, mem⟩ := declared status extends_
      cases h
      exact State.IsSettledClass.isAvailable (.inl ⟨_, above parent mem⟩)
    | fail status _ _ above =>
      obtain rfl := changed (State.status?_setStatus ..)
      obtain ⟨_, h, mem⟩ := declared status extends_
      cases h
      exact (above parent mem).isAvailable
    | @cycle first rest _ loaded above =>
      have mem : name ∈ first :: rest := by
        by_contra outside
        exact same ((State.status?_failCycle ..).trans (if_neg outside))
      obtain ⟨summary, parked, status⟩ := loaded name mem
      obtain ⟨_, h, declares⟩ := declared status extends_
      cases h
      exact above name mem parent (by simpa only [State.openParents, status] using declares)

/-- Every turn keeps the parents of settled classes available. -/
theorem Turn.rests (fair : setting.IsFair) (valid : state.Valid setting)
    (turn : Turn setting state next) (rests : state.Rests setting) : next.Rests setting := by
  intro name parent settled extends_
  refine Moves.isAvailable (turn.moves fair) ?_
  rcases turn.settled fair with same | step
  · exact rests _ _ (same settled) extends_
  · rcases step.settled valid settled with before | above
    · exact rests _ _ before extends_
    · exact above parent extends_

theorem Turns.rests (fair : setting.IsFair) (valid : state.Valid setting)
    (turns : Turns setting state next) (rests : state.Rests setting) : next.Rests setting := by
  induction turns with
  | refl => exact rests
  | tail early turn ih => exact turn.rests fair (Turns.valid fair early valid) ih

namespace State

theorem rests_empty (setting : Setting) : Rests setting { allowForwarders := setting.allow } := by
  rintro name parent (⟨cls, found⟩ | failed) _
  · rw [class?_blank] at found
    cases found
  · rw [status?_blank] at failed
    cases failed

/-! ### The end of a run -/

/-- Where nothing is left to do, every class that has been asked for is linked or has failed. -/
theorem InOrder.isSettledClass (order : state.InOrder setting) (settled : state.isSettled = true)
    {status : Status} (h : state.status? name = some status) : state.IsSettledClass name := by
  obtain ⟨_, wanted⟩ : state.work = [] ∧ state.wanted = [] := by
    simpa [isSettled] using settled
  cases status with
  | awaited parked =>
    have mem := order.queued.wanted.2 ⟨parked, h⟩
    rw [wanted] at mem; cases mem
  | loaded summary parked => exact absurd wanted (order.queued.waits (isLoaded_of_status h))
  | linked cls => exact .inl ⟨cls, class?_eq_some.2 h⟩
  | failed => exact .inr h

/-- So is every class that a task which has been accounted for was for. -/
theorem InOrder.isSettledClass_of_covers (order : state.InOrder setting)
    (settled : state.isSettled = true) (covers : state.Covers task) :
    state.IsSettledClass task.cls :=
  (order.settles settled covers).imp_left fun ⟨cls, found, _⟩ => ⟨cls, found⟩

theorem InOrder.isSettledClass_of_demanded (order : state.InOrder setting)
    (settled : state.isSettled = true)
    (demanded : Demanded state.class? setting.requirement setting.entryPoints task) :
    state.IsSettledClass task.cls := by
  have root : ∀ {task}, task ∈ setting.rootTasks → state.Covers task :=
    fun mem => order.accounted (.inl mem)
  have entry : ∀ {name}, name ∈ setting.entryPoints →
      { cls := name, action := .enter, cause := .exports } ∈ setting.rootTasks := fun mem =>
    List.mem_append_right _ (List.mem_map.2 ⟨_, mem, rfl⟩)
  cases demanded with
  | required mem =>
    exact order.isSettledClass_of_covers settled (root (List.mem_append_left _ mem))
  | entry mem => exact order.isSettledClass_of_covers settled (root (entry mem))
  | @entered name cls task mem found due =>
    rcases order.settles settled (root (entry mem)) with ⟨record, found', _, done⟩ | failed
    · obtain rfl := Option.some.inj (found.symm.trans found')
      have present : cls.isPresent = true := by
        cases known : cls.summary with
        | none => simp [entryTasks, known] at due
        | some summary => rw [ClassRecord.isPresent, known]; rfl
      rcases done present task due with awaits | ⟨_, linked, _, found, _⟩
      · exact order.isSettledClass_of_covers settled (.inl awaits)
      · exact .inl ⟨linked, found⟩
    · rw [class?_eq_some.1 found] at failed
      cases failed
  | body found has reached due =>
    exact order.isSettledClass_of_covers settled
      (order.accounted (.inr (.body found has reached due)))
  | instances found has due =>
    exact order.isSettledClass_of_covers settled (order.accounted (.inr (.instances found has due)))

/-- Every class that a run has touched is linked or has failed in the end. -/
theorem InOrder.isSettledClass_of_touched (order : state.InOrder setting)
    (settled : state.isSettled = true) (rests : state.Rests setting)
    (touched : Touched setting.world state.class? setting.requirement setting.entryPoints name) :
    state.IsSettledClass name := by
  induction touched with
  | object => exact .inl order.rooted
  | demanded demanded => exact order.isSettledClass_of_demanded settled demanded
  | parent _ declared ih =>
    obtain ⟨status, h⟩ := exists_of_isAvailable (rests _ _ ih declared)
    exact order.isSettledClass settled h

end State

/-! ### Cycles -/

/-- What a linked class extends is linked. -/
theorem Universe.Links.exists_of_extends {world : Universe} (links : world.Links name cls)
    (extends_ : Relation.ReflTransGen world.Extends name other) :
    ∃ record, world.Links other record := by
  induction extends_ with
  | refl => exact ⟨cls, links⟩
  | tail _ declared ih =>
    obtain ⟨record, links⟩ := ih
    obtain ⟨summary, known, mem⟩ := declared
    cases links with
    | absent unknown => rw [unknown] at known; cases known
    | present parents known' linked =>
      obtain rfl := Option.some.inj (known.symm.trans known')
      exact ⟨_, linked _ mem⟩

/-- A class that cannot be linked has a parent that cannot. -/
theorem Universe.exists_unlinkable_parent {world : Universe}
    (unlinkable : ∀ cls, ¬ world.Links name cls) :
    ∃ parent, world.Extends name parent ∧ ∀ cls, ¬ world.Links parent cls := by
  cases known : world name with
  | none => exact absurd (.absent known) (unlinkable _)
  | some summary =>
    by_contra all
    have linkable : ∀ parent, ∃ cls, parent ∈ summary.parents → world.Links parent cls := by
      intro parent
      by_cases mem : parent ∈ summary.parents
      · by_contra no
        exact all ⟨parent, ⟨summary, known, mem⟩, fun cls links => no ⟨cls, fun _ => links⟩⟩
      · exact ⟨.absent parent, fun h => absurd h mem⟩
    choose parents linked using linkable
    exact unlinkable _ (.present parents known linked)

/-- A relation that goes on from every member of a finite set within the set leads into a cycle. -/
theorem exists_cycle {α : Type} {relates : α → α → Prop} {members : Set α} (finite : members.Finite)
    (goes : ∀ x ∈ members, ∃ y ∈ members, relates x y) {start : α} (mem : start ∈ members) :
    ∃ x, Relation.ReflTransGen relates start x ∧ Relation.TransGen relates x x := by
  choose! next inside related using goes
  let walk : ℕ → α := fun steps => next^[steps] start
  have step : ∀ n, walk (n + 1) = next (walk n) :=
    fun n => Function.iterate_succ_apply' next n start
  have visited : ∀ n, walk n ∈ members := by
    intro n
    induction n with
    | zero => exact mem
    | succ n ih => rw [step]; exact inside _ ih
  have leads : ∀ n k, Relation.ReflTransGen relates (walk n) (walk (n + k)) := by
    intro n k
    induction k with
    | zero => exact .refl
    | succ k ih =>
      refine ih.tail ?_
      rw [← Nat.add_assoc, step]
      exact related _ (visited _)
  -- The walk never leaves the finite set, so it comes to some member twice.
  have := finite.to_subtype
  obtain ⟨i, j, ne, same⟩ :=
    Finite.exists_ne_map_eq_of_infinite fun n => (⟨walk n, visited n⟩ : members)
  wlog less : i < j generalizing i j
  · exact this j i ne.symm same.symm (by omega)
  have same : walk i = walk j := congrArg Subtype.val same
  refine ⟨walk i, by simpa [walk] using leads 0 i, ?_⟩
  have first : relates (walk i) (walk (i + 1)) := by
    rw [step]
    exact related _ (visited i)
  have back := leads (i + 1) (j - (i + 1))
  rw [show i + 1 + (j - (i + 1)) = j by omega, ← same] at back
  exact Relation.TransGen.head' first back

/-- Where nothing is left to do, the classes that have failed are those that inherit from a cycle,
or lie on one. -/
theorem State.InOrder.failed_iff (order : state.InOrder setting) (settled : state.isSettled = true)
    (rests : state.Rests setting) {status : Status} (h : state.status? name = some status) :
    status = .failed ↔ ∃ other, Relation.ReflTransGen setting.world.Extends name other ∧
      Relation.TransGen setting.world.Extends other other := by
  constructor
  · rintro rfl
    have finite : {name | state.status? name = some .failed}.Finite := by
      refine (List.finite_toSet state.table.keys).subset fun name failed => ?_
      have failed : state.table[name]? = some .failed := failed
      show name ∈ state.table.keys
      rw [Std.ExtTreeMap.mem_keys, Std.ExtTreeMap.mem_iff_isSome_getElem?, failed]
      rfl
    refine exists_cycle finite (fun child failed => ?_) h
    have failed : state.status? child = some .failed := failed
    obtain ⟨parent, declared, unlinkable⟩ :=
      Universe.exists_unlinkable_parent (order.valid.failed failed)
    obtain ⟨_, known⟩ := exists_of_isAvailable (rests _ _ (.inr failed) declared)
    rcases order.isSettledClass settled known with ⟨cls, found⟩ | failed
    · exact absurd (order.valid.follows.links found) (unlinkable _)
    · exact ⟨parent, failed, declared⟩
  · rintro ⟨other, leads, cycle⟩
    rcases order.isSettledClass settled h with ⟨cls, found⟩ | failed
    · obtain ⟨record, links⟩ := (order.valid.follows.links found).exists_of_extends leads
      exact absurd cycle links.not_extends_itself
    · exact Option.some.inj (h.symm.trans failed)

/-- A run that ends within its steps leaves no class awaited or loaded: every class is linked or has
failed, the touched ones among them, and those fail that reach a cycle by way of the super classes
and interfaces that the summaries declare. -/
theorem settle_terminal {loader later after : Loader} {allowForwarders : Bool}
    {requirement : Requirement} {root : ClassSummary} {steps : Nat}
    (known : loader.knows .object = some root) (isRoot : root.isRoot = true)
    (loads : loader.Loads later)
    (ends : (State.start allowForwarders root requirement loader.entryPoints).settle steps later =
      (.ok state, after)) :
    (∀ name, Touched loader.knows state.class? requirement loader.entryPoints name →
      ∃ status, state.status? name = some status) ∧
    ∀ name status, state.status? name = some status →
      ((∃ record, status = .linked record) ∨ status = .failed) ∧
      (status = .failed ↔ ∃ other, Relation.ReflTransGen loader.knows.Extends name other ∧
        Relation.TransGen loader.knows.Extends other other) := by
  let setting := loader.settingFor allowForwarders requirement fun _ => True
  have fair : setting.IsFair := Loader.isFair_settingFor ⟨root, known, isRoot⟩
  obtain ⟨order, settled, turns⟩ := State.turns_of_settle fair known isRoot
    (Loader.Loads.knows loads).symm ends
  have rests := Turns.rests fair (State.valid_empty setting) turns (State.rests_empty setting)
  refine ⟨fun name touched => ?_, fun name status h =>
    ⟨?_, order.failed_iff settled rests h⟩⟩
  · rcases order.isSettledClass_of_touched settled rests touched with ⟨cls, found⟩ | failed
    · exact ⟨_, State.class?_eq_some.1 found⟩
    · exact ⟨_, failed⟩
  · rcases order.isSettledClass settled h with ⟨cls, found⟩ | failed
    · exact .inl ⟨cls, Option.some.inj (h.symm.trans (State.class?_eq_some.1 found))⟩
    · exact .inr (Option.some.inj (h.symm.trans failed))

/-- Two classes that extend one another, and one below them. -/
def cyclic : List ClassDecl :=
  [.ofMethods .object .plain [] [],
    .ofMethods ⟨"A"⟩ .plain [⟨"B"⟩] [],
    .ofMethods ⟨"B"⟩ .plain [⟨"A"⟩] [],
    .ofMethods ⟨"C"⟩ .plain [⟨"A"⟩] []]

/-- The class below the cycle fails with it. -/
theorem settle_terminal_cyclic :
    ∃ state after, (State.start true (ClassDecl.ofMethods .object .plain [] []).summary
        (.typeData "test" ⟨"C"⟩) (Loader.ofDecls cyclic).entryPoints).settle 20
          (Loader.ofDecls cyclic) = (.ok state, after) ∧
      state.status? ⟨"C"⟩ = some .failed := by
  let root : ClassSummary := (ClassDecl.ofMethods .object .plain [] []).summary
  let requirement : Requirement := .typeData "test" ⟨"C"⟩
  have known : (Loader.ofDecls cyclic).knows .object = some root := by decide +kernel
  have told : ((State.start true root requirement (Loader.ofDecls cyclic).entryPoints).settle 20
      (Loader.ofDecls cyclic)).1.toOption.isSome = true := by decide +kernel
  generalize ends : (State.start true root requirement (Loader.ofDecls cyclic).entryPoints).settle
    20 (Loader.ofDecls cyclic) = outcome at told
  obtain ⟨_ | state, after⟩ := outcome
  · cases told
  obtain ⟨touches, terminal⟩ := settle_terminal known rfl .refl ends
  let task : Task :=
    { cls := ⟨"C"⟩, action := .fulfil (.use .typeData), cause := .component "test" }
  have required : task ∈ requirement.tasks false := List.mem_singleton_self _
  obtain ⟨status, hs⟩ := touches ⟨"C"⟩ (.demanded (.required required))
  have up : (Loader.ofDecls cyclic).knows.Extends ⟨"A"⟩ ⟨"B"⟩ :=
    Universe.extends_of_mem_parents (by decide +kernel)
  have down : (Loader.ofDecls cyclic).knows.Extends ⟨"B"⟩ ⟨"A"⟩ :=
    Universe.extends_of_mem_parents (by decide +kernel)
  have failed := (terminal _ status hs).2.2
    ⟨⟨"A"⟩, .single (Universe.extends_of_mem_parents (by decide +kernel)), .tail (.single up) down⟩
  exact ⟨state, after, rfl, failed ▸ hs⟩

end ClassLinker
