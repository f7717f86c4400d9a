import ClassLinker.Proofs.Bridges
import ClassLinker.Proofs.Terminal

/-!
# What the end of a run has served

Where nothing is left to do, whatever is asked for has been served. What follows is said of a final
state alone, without the tasks that have led to it, so that another run can be compared with it.

* `State.Serves`: a demand on a class is fulfilled, unless the class does not exist or has failed.
  So it is with what the reachable methods and the instances demand, with what the entry points ask
  for, and with the constructors of modules;
* `State.Final.dispatched`: a call on a class has been dispatched in all classes below that
  instances are created of;
* `State.Final.reached_of_declared`, `State.Final.reached_of_default`: the declared method that
  implements a call which is answered is reachable.
-/

namespace ClassLinker

variable {setting : Setting} {state : State} {world : Universe}
variable {name other owner : ClassName} {cls record : ClassRecord} {task : Task}
variable {method : MethodName} {demand : Demand}

/-! ### Interfaces -/

/-- The super class of an interface is one that does not exist. -/
theorem Universe.Links.superClass_of_interface (links : world.Links name cls)
    (kind : cls.kind = .interface) (extends_ : cls.superClass = some other) :
    world.Links other (.absent other) := by
  cases links with
  | absent => cases extends_
  | @present _ summary parents known linked =>
    have kind : summary.kind = .interface := kind
    obtain ⟨parent, declared, kept⟩ := Option.bind_eq_some_iff.1 extends_
    have links := linked parent (by simp [ClassSummary.parents, declared])
    have unfit : ∀ other, summary.kind.mayExtend other (parents other).kind = false := by
      simp [kind, ClassKind.mayExtend, ClassKind.mayExtendKind, ClassKind.mayExtendObject,
        ClassKind.isOrdinary, ClassKind.isJS]
    have other_kind : summary.kind.isOrdinary = false := by rw [kind]; rfl
    cases missing : (parents parent).isPresent with
    | false =>
      obtain rfl : parent = other := by simpa [missing] using kept
      refine .absent ?_
      rw [← links.summary_eq]
      simpa [ClassRecord.isPresent] using missing
    | true => simp [missing, unfit, other_kind] at kept

/-- What implements a method for an interface is declared by the interface itself. -/
theorem State.Valid.declares_of_interface (valid : state.Valid setting)
    (found : state.class? name = some cls) (kind : cls.kind = .interface)
    (implementor : Implementor state.class? method name owner) :
    Implementor setting.world.classes method name name := by
  cases implementor with
  | here found' has =>
    obtain rfl := Option.some.inj (found.symm.trans found')
    refine .here (valid.follows.classes_eq found) ?_
    rw [← (valid.classes found).hasConcrete_eq (.inr kind)]
    exact has
  | @above _ _ _ parent found' _ extends_ up =>
    obtain rfl := Option.some.inj (found.symm.trans found')
    have missing := (valid.follows.links found).superClass_of_interface kind extends_
    have nothing : ∀ {record}, state.class? parent = some record → record.isPresent = false ∧
        record.superClass = none := by
      intro record found
      have same := missing.unique (valid.follows.links found)
      have absent : record.fresh.isPresent = false ∧ record.fresh.superClass = none := by
        rw [← same]
        exact ⟨rfl, rfl⟩
      exact absent
    cases up with
    | here found has =>
      have present := (valid.classes found).isPresent_of_hasConcrete has
      rw [(nothing found).1] at present
      cases present
    | above found _ extends_ =>
      rw [(nothing found).2] at extends_
      cases extends_

/-! ### Final states -/

/-- The demand on the class is fulfilled, unless the class does not exist or has failed. -/
structure State.Serves (state : State) (name : ClassName) (demand : Demand) : Prop where
  settled : state.IsSettledClass name
  fulfils : ∀ {cls}, state.class? name = some cls → cls.isPresent = true →
    state.Fulfils cls demand

/-- A run has come here, and nothing is left to do. -/
structure State.Final (setting : Setting) (state : State) : Prop where
  order : state.InOrder setting
  settled : state.isSettled = true
  rests : state.Rests setting

/-- Everything that follows from there being instances is a demand. -/
theorem ClassRecord.exists_of_mem_instanceDues (mem : task ∈ cls.instanceDues) :
    ∃ demand, task.action = .fulfil demand := by
  have members : ∀ {task}, task ∈ State.exportedMemberTasks cls →
      ∃ demand, task.action = .fulfil demand := by
    intro task mem
    unfold State.exportedMemberTasks at mem
    split at mem
    · cases mem
    · obtain ⟨member, _, mem⟩ := List.mem_flatMap.1 mem
      obtain ⟨demand, _, same⟩ := Demands.mem_tasks.1 mem
      exact ⟨demand, by rw [same]⟩
  rcases List.mem_append.1 mem with mem | mem
  · rcases List.mem_append.1 mem with mem | mem
    · split at mem
      · obtain ⟨parent, _, rfl⟩ := List.mem_map.1 mem
        exact ⟨_, rfl⟩
      · cases mem
    · unfold State.instanceTasks at mem
      split at mem
      · cases mem
      · rcases List.mem_append.1 mem with mem | mem
        · split at mem
          · cases mem
          · exact members mem
        · obtain ⟨field, _, rfl⟩ := List.mem_map.1 mem
          exact ⟨_, rfl⟩
  · exact members mem

namespace State.Final

variable (final : state.Final setting)

include final

theorem isSettledClass {status : Status} (h : state.status? name = some status) :
    state.IsSettledClass name :=
  final.order.isSettledClass final.settled h

/-- A class that can be linked has not failed. -/
theorem exists_linked (settled : state.IsSettledClass name) (links : setting.world.Links name cls) :
    ∃ record, state.class? name = some record ∧ record.fresh = cls := by
  rcases settled with ⟨record, found⟩ | failed
  · exact ⟨record, found, (final.order.valid.follows.links found).unique links⟩
  · exact absurd links (final.order.valid.failed failed cls)

/-! ### Demands that are served -/

theorem serves_of_covers (covers : state.Covers task) (action : task.action = .fulfil demand) :
    state.Serves task.cls demand := by
  rcases final.order.settles final.settled covers with ⟨cls, found, _, done⟩ | failed
  · refine ⟨.inl ⟨cls, found⟩, fun found' present => ?_⟩
    obtain rfl := Option.some.inj (found.symm.trans found')
    have done := done present
    rwa [action] at done
  · refine ⟨.inr failed, fun found => ?_⟩
    rw [class?_eq_some.1 found] at failed
    cases failed

theorem serves_of_coversDue (due : state.CoversDue task) (action : task.action = .fulfil demand) :
    state.Serves task.cls demand := by
  rcases due with awaits | ⟨done, cls, action', found, _, fulfils⟩
  · exact final.serves_of_covers (.inl awaits) action
  · rw [action] at action'
    cases action'
    refine ⟨.inl ⟨cls, found⟩, fun found' present => ?_⟩
    obtain rfl := Option.some.inj (found.symm.trans found')
    exact fulfils present

theorem serves_required (mem : task ∈ setting.requirement.tasks false)
    (action : task.action = .fulfil demand) : state.Serves task.cls demand :=
  final.serves_of_covers (final.order.accounted (.inl (List.mem_append_left _ mem))) action

theorem isSettledClass_of_entry (entry : name ∈ setting.entryPoints) :
    state.IsSettledClass name := by
  have root := Setting.enter_mem_rootTasks entry
  exact final.order.isSettledClass_of_covers final.settled (final.order.accounted (.inl root))

/-- Entry points have what they run and export. -/
theorem serves_entered (entry : name ∈ setting.entryPoints) (found : state.class? name = some cls)
    (mem : task ∈ entryTasks cls) (action : task.action = .fulfil demand) :
    state.Serves task.cls demand := by
  have root := Setting.enter_mem_rootTasks entry
  rcases final.order.settles final.settled (final.order.accounted (.inl root)) with
    ⟨record, found', _, done⟩ | failed
  · obtain rfl := Option.some.inj (found.symm.trans found')
    have present : cls.isPresent = true := by
      cases known : cls.summary with
      | none => simp [entryTasks, known] at mem
      | some summary => rw [ClassRecord.isPresent, known]; rfl
    exact final.serves_of_coversDue (done present task mem) action
  · rw [class?_eq_some.1 found] at failed
    cases failed

/-- Instances have what follows from them. -/
theorem serves_instances (found : state.class? name = some cls) (has : cls.hasInstances = true)
    (mem : task ∈ cls.instanceDues) :
    ∃ demand, task.action = .fulfil demand ∧ state.Serves task.cls demand := by
  obtain ⟨demand, action⟩ := ClassRecord.exists_of_mem_instanceDues mem
  exact ⟨demand, action,
    final.serves_of_covers (final.order.accounted (.inr (.instances found has mem))) action⟩

/-- Reachable methods that are declared with code have what the code demands. -/
theorem serves_body {id : MethodId} {declared : MethodRecord} {code : MethodSummary}
    (found : state.class? id.owner = some cls) (declares : cls.fresh.method? id.key = some declared)
    (concrete : declared.isConcrete = true) (reached : state.IsReached id)
    (lists : (cls.summary.bind fun summary => summary.method? id.space id.name) = some code)
    (demands : (other, demand) ∈ code.demands.toList) : state.Serves other demand := by
  have valid := final.order.valid
  obtain ⟨record, found', entry, has, reached⟩ := isReached_iff.1 reached
  obtain rfl := Option.some.inj (found.symm.trans found')
  obtain ⟨summary, known, lists⟩ := Option.bind_eq_some_iff.1 lists
  cases (valid.classes found).entries has with
  | declared _ _ present _ own =>
    have owes := valid.owes_body found has reached present own known lists demands
    exact final.serves_of_covers (final.order.accounted (.inr owes)) rfl
  | missing lacks => cases lacks.symm.trans declares
  | added _ _ _ _ _ replaces =>
    -- Bridges and proxies take the place of abstract methods only.
    rw [replaces declared declares] at concrete
    cases concrete

/-- Modules that are read have their constructors called. -/
theorem serves_constructor (found : state.class? name = some cls) (read : cls.uses.module = true)
    (kind : cls.kind.isOrdinary = true) :
    state.Serves name (.callDirect ⟨.constructor, .defaultConstructor⟩) := by
  obtain ⟨cause, covers⟩ := final.order.modules found read kind
  exact final.serves_of_covers covers rfl

/-! ### Calls that are answered -/

theorem dispatched {cause : Cause} (above : state.class? other = some record)
    (noted : (method, cause) ∈ record.calls) (found : state.class? name = some cls)
    (kind : cls.kind.isOrdinary = true) (created : cls.uses.instances = true)
    (mem : other ∈ cls.ancestors) : state.Dispatched name method := by
  have consistent := final.order.consistent
  obtain ⟨_, above', _, resident⟩ := (consistent.created found created).above kind mem
  obtain rfl := Option.some.inj (above.symm.trans above')
  have dispatched := consistent.dispatched above resident noted
  exact dispatched

variable (fair : setting.IsFair)

include fair

/-- If the super classes declare code for a method that is no proxy, no bridge takes its place, so
a call is answered by that code. -/
theorem reached_of_declared (direct : method.isProxy = false)
    (declared : Implementor setting.world.classes method name owner)
    (answered : state.Answered name method) (found : state.class? name = some cls) :
    state.IsReached ⟨owner, .publicInstance, method⟩ := by
  have valid := final.order.valid
  have bridged := bridged_of_reached fair final.order.reached
  obtain ⟨nearest, implementor⟩ := valid.exists_implementor fair found declared
  cases answered with
  | @implemented answers implementor reached =>
    have at_or_above := (valid.implementor_declared_iff implementor owner).1 declared
    rcases bridged.declared_or_fits valid direct implementor with own | ⟨_, fits⟩
    · obtain rfl := own.unique at_or_above
      exact reached
    · exact absurd at_or_above (fits.1 owner)
  | default lacks | missing lacks => exact absurd implementor (lacks nearest)

omit fair in
/-- A call on an interface without code of its own is answered by the first default method. -/
theorem reached_of_default {others : List ClassName} (kind : cls.kind = .interface)
    (lacks : ∀ owner, ¬ Implementor setting.world.classes method name owner)
    (owners : defaultOwnersIn setting.world.classes name method = owner :: others)
    (answered : state.Answered name method) (found : state.class? name = some cls) :
    state.IsReached ⟨owner, .publicInstance, method⟩ := by
  have valid := final.order.valid
  have owners_eq := (valid.defaultOwners_eq found method).trans owners
  cases answered with
  | implemented implementor =>
    exact absurd (valid.declares_of_interface found kind implementor) (lacks name)
  | default _ owners' _ reached =>
    cases owners_eq.symm.trans owners'
    exact reached
  | missing _ owners' => cases owners_eq.symm.trans owners'

end State.Final

end ClassLinker
