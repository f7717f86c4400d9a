import ClassLinker.Proofs.Ancestry

/-!
# Which classes have instances

A class knows of its own instances and of those of ordinary classes below it, each of which it lists
once. `ClassRecord.Tallies` says that a class tells of no other instances; every turn of a run
preserves it (`Turn.tallied`), for calls leave instances alone (`State.sameUse_callExact`) and a
class is listed when instances of it are created for the first time
(`State.Tallied.createOrdinary`).

That all instances there are have been noted is what `State.Consistent` says. Together, what an
analysis tells of instances is exact (`analyze_instances`).
-/

namespace ClassLinker

variable {setting : Setting} {state next : State}
variable {name other : ClassName} {cls record : ClassRecord} {method : MethodName}

/-- The class lists no class twice, instances are created of it only if it is of a kind that has
any, and it says that there are instances only on account of some class. -/
structure ClassRecord.Tallies (cls : ClassRecord) : Prop where
  nodup : cls.inhabited.Nodup
  kind : cls.uses.instances = true → cls.kind.isInstantiable = true
  owner : cls.hasInstances = true →
    cls.inhabited ≠ [] ∨ cls.uses.instances = true ∧ cls.kind.isOrdinary = false

/-- Every linked class tells of instances like that. -/
def State.Tallied (state : State) : Prop :=
  ∀ name cls, state.class? name = some cls → cls.Tallies

/-! ### Calls -/

namespace State

/-- A class changes in its methods. -/
theorem sameUse_setClass (found : state.class? name = some cls)
    (bare : record.withoutMethods = cls.withoutMethods) :
    state.SameUse (state.setClass name record) := by
  intro other
  rw [class?_setClass]
  split
  · rename_i same
    subst same
    rw [found, Option.map_some, Option.map_some, bare]
  · rfl

theorem sameUse_modifyClass {change : ClassRecord → ClassRecord}
    (bare : ∀ cls, (change cls).withoutMethods = cls.withoutMethods) :
    state.SameUse (state.modifyClass name change) := by
  unfold modifyClass
  split
  · rename_i cls found
    exact sameUse_setClass found (bare cls)
  · exact .refl state

theorem sameUse_addCaller (state : State) (target : MethodId) (cause : Cause) :
    state.SameUse (state.addCaller target cause) := by
  unfold addCaller
  split
  · exact .refl state
  · rename_i cls found
    split
    · exact .refl state
    · have entered := fun methods => @sameUse_setClass state target.owner cls { cls with methods }
        found rfl
      simp only
      split
      · exact entered _
      · exact (entered _).trans fun _ => rfl

theorem sameUse_reportMissing (state : State) (id : MethodId) (cause : Cause) :
    state.SameUse (state.reportMissing id cause) := by
  refine (sameUse_modifyClass fun cls => ?_).trans fun _ => rfl
  split <;> rfl

theorem sameUse_addForwarder (state : State) (name : ClassName) (method : MethodName)
    (forwarder : Forwarder) : state.SameUse (state.addForwarder name method forwarder).2 :=
  sameUse_modifyClass fun _ => rfl

theorem sameUse_resolve (state : State) (name : ClassName) (method : MethodName) (cause : Cause) :
    state.SameUse (state.resolve name method cause).2 := by
  unfold resolve
  split
  · exact .refl state
  · split
    · exact sameUse_reportMissing _ _ _
    · simp only [reportConflict_eq]
      have reported : ∀ errors, state.SameUse (state.extend [] errors) := fun _ _ => rfl
      split
      · exact reported _
      · exact (reported _).trans (sameUse_addForwarder _ _ _ _)

theorem sameUse_dispatch (state : State) (name : ClassName) (method : MethodName)
    (cause : Cause) : state.SameUse (state.dispatch name method cause).2 := by
  unfold dispatch
  split
  · unfold resolveProxy
    split
    · exact .refl state
    · simp only
      split
      · exact .refl state
      · split
        · exact sameUse_addForwarder _ _ _ _
        · exact sameUse_reportMissing _ _ _
  · exact sameUse_resolve _ _ _ _

/-- Calls leave instances alone. -/
theorem sameUse_callExact (state : State) (name : ClassName) (method : MethodName)
    (cause : Cause) : state.SameUse (state.callExact name method cause) :=
  (sameUse_dispatch _ _ _ _).trans (sameUse_addCaller _ _ _)

theorem sameUse_callAgain (state : State) (name : ClassName) (method : MethodName)
    (cause : Cause) : state.SameUse (state.callAgain name method cause) := by
  unfold callAgain
  split
  · exact sameUse_addCaller _ _ _
  · exact .refl state

theorem sameUse_callDirect (state : State) (name : ClassName) (method : MethodKey)
    (cause : Cause) : state.SameUse (state.callDirect name method cause) := by
  unfold callDirect
  split
  · exact (sameUse_resolve _ _ _ _).trans (sameUse_addCaller _ _ _)
  · split
    · exact .refl state
    · simp only
      split
      · exact sameUse_addCaller _ _ _
      · exact (sameUse_reportMissing _ _ _).trans (sameUse_addCaller _ _ _)

/-- So do several calls. -/
theorem sameUse_foldl {α : Type} {f : State → α → State} (list : List α)
    (each : ∀ state item, State.SameUse state (f state item)) (state : State) :
    state.SameUse (list.foldl f state) := by
  induction list generalizing state with
  | nil => exact .refl state
  | cons first rest ih => exact (each state first).trans (ih (f state first))

end State

/-! ### Instances -/

theorem ClassRecord.Tallies.of_withoutMethods (tallies : cls.Tallies)
    (bare : record.withoutMethods = cls.withoutMethods) : record.Tallies := by
  have inhabited : record.withoutMethods.inhabited = cls.withoutMethods.inhabited := by rw [bare]
  have uses : record.withoutMethods.uses = cls.withoutMethods.uses := by rw [bare]
  have kind : record.withoutMethods.kind = cls.withoutMethods.kind := by rw [bare]
  have has : record.withoutMethods.hasInstances = cls.withoutMethods.hasInstances := by rw [bare]
  simp only [withoutMethods] at inhabited uses kind has
  exact ⟨inhabited ▸ tallies.nodup, by rw [uses, kind]; exact tallies.kind, by
    rw [has, inhabited, uses, kind]; exact tallies.owner⟩

namespace State.Tallied

theorem of_class?_eq (tallied : state.Tallied) (same : next.class? = state.class?) :
    next.Tallied :=
  fun _ _ found => tallied _ _ (same ▸ found)

theorem of_sameUse (tallied : state.Tallied) (same : state.SameUse next) : next.Tallied := by
  intro name record found
  obtain ⟨cls, found', bare⟩ := same.symm.found found
  exact (tallied _ _ found').of_withoutMethods bare.symm

theorem revise (tallied : state.Tallied) (tallies : record.Tallies) (name : ClassName)
    (tasks : List Task) (errors : List Diagnostic) :
    (state.revise name record tasks errors).Tallied := by
  intro other cls found
  rw [class?_revise] at found
  split at found
  · cases found
    exact tallies
  · exact tallied _ _ found

/-- Noting an ordinary class on one of its ancestors that does not list it yet. -/
theorem mark (tallied : state.Tallied) (ancestor : ClassName)
    (new : ∀ {cls}, state.class? ancestor = some cls → name ∉ cls.inhabited) :
    let after := (state.markInstances ancestor).addInhabited name ancestor
    after.Tallied ∧ ∀ other, other ≠ ancestor → after.class? other = state.class? other := by
  intro after
  cases found : state.class? ancestor with
  | none =>
    have same : after = state := by
      simp only [after, markInstances, addInhabited, modifyClass, found]
    rw [same]
    exact ⟨tallied, fun _ _ => rfl⟩
  | some cls =>
    let marked : ClassRecord :=
      { cls with hasInstances := true, inhabited := cls.inhabited ++ [name] }
    have tallies : marked.Tallies := by
      refine ⟨?_, (tallied _ _ found).kind, fun _ => .inl (by simp [marked])⟩
      exact List.nodup_append.2 ⟨(tallied _ _ found).nodup, by simp,
        fun resident mem other mem' same =>
          new found (List.mem_singleton.1 mem' ▸ same ▸ mem)⟩
    have same : ∀ other, after.class? other =
        if ancestor = other then some marked else state.class? other := by
      intro other
      cases has : cls.hasInstances with
      | true =>
        have idle : state.markInstances ancestor = state := by
          simp only [State.markInstances, found, has, if_true]
        simp only [after, idle, addInhabited, modifyClass, found, class?_setClass, marked, ← has]
      | false =>
        have marks : state.markInstances ancestor =
            state.revise ancestor { cls with hasInstances := true } (instanceTasks cls) [] := by
          simp [State.markInstances, found, has, addTasks, State.revise, setClass, setStatus]
        simp only [after, marks, addInhabited, modifyClass, class?_revise, if_true,
          class?_setClass, marked]
        split <;> rfl
    refine ⟨fun other record found' => ?_, fun other ne => by rw [same, if_neg ne.symm]⟩
    rw [same] at found'
    split at found'
    · cases found'
      exact tallies
    · exact tallied _ _ found'

/-- Noting an ordinary class on all its ancestors, none of which lists it yet. -/
theorem markAll {ancestors : List ClassName} (nodup : ancestors.Nodup) (tallied : state.Tallied)
    (new : ∀ ancestor ∈ ancestors, ∀ {cls}, state.class? ancestor = some cls →
      name ∉ cls.inhabited) :
    (ancestors.foldl (fun state ancestor =>
      (state.markInstances ancestor).addInhabited name ancestor) state).Tallied := by
  induction ancestors generalizing state with
  | nil => exact tallied
  | cons first rest ih =>
    obtain ⟨fresh, nodup⟩ := List.nodup_cons.1 nodup
    obtain ⟨tallied', others⟩ := mark tallied first (new first List.mem_cons_self)
    refine ih nodup tallied' fun ancestor mem => ?_
    rw [others ancestor fun same => fresh (same ▸ mem)]
    exact new ancestor (List.mem_cons_of_mem _ mem)

/-- Creating instances of an ordinary class that no class lists yet. -/
theorem createOrdinary (tallied : state.Tallied) (nodup : cls.ancestors.Nodup)
    (new : ∀ {name record}, state.class? name = some record → cls.name ∉ record.inhabited) :
    (state.createOrdinary cls).Tallied :=
  (markAll nodup tallied fun _ _ => new).of_sameUse
    (sameUse_foldl _ (fun _ _ => sameUse_callExact _ _ _ _) _)

/-- Noting instances of a class that is not ordinary. -/
theorem markInstances (tallied : state.Tallied) (found : state.class? name = some cls)
    (created : cls.uses.instances = true) (kind : cls.kind.isOrdinary = false) :
    (state.markInstances name).Tallied := by
  rcases state.markInstances_cases name with same | ⟨_, found', _, same⟩
  · rw [same]
    exact tallied
  · obtain rfl := Option.some.inj (found.symm.trans found')
    have tallies : ClassRecord.Tallies { cls with hasInstances := true } :=
      ⟨(tallied _ _ found).nodup, (tallied _ _ found).kind, fun _ => .inr ⟨created, kind⟩⟩
    rw [same]
    exact tallied.revise tallies _ _ _

theorem create (valid : state.Valid setting) (tallied : state.Tallied) (name : ClassName)
    (cause : Cause) : (state.create name cause).Tallied := by
  cases found : state.class? name with
  | none =>
    simp only [State.create, found]
    exact tallied
  | some cls =>
    obtain rfl := valid.follows.name_eq found
    have before := tallied _ _ found
    let source : ClassRecord := { cls with creators := recordOnce cls.creators cause }
    by_cases idle : (cls.uses.instances || !cls.kind.isInstantiable) = true
    · have tallies : source.Tallies := ⟨before.nodup, before.kind, before.owner⟩
      rw [create_of_idle found idle]
      exact tallied.revise tallies _ _ _
    · obtain ⟨fresh, kind⟩ : cls.uses.instances = false ∧ cls.kind.isInstantiable = true := by
        simpa using idle
      let told := state.revise cls.name (source.addUse .instances) [] []
      have foundT : told.class? cls.name = some (source.addUse .instances) := by
        rw [class?_revise, if_pos rfl]
      have owner : cls.hasInstances = true → cls.inhabited ≠ [] := fun has =>
        (before.owner has).resolve_right fun created => by
          rw [fresh] at created
          cases created.1
      have tallies : (source.addUse .instances).Tallies :=
        ⟨before.nodup, fun _ => kind, fun has => .inl (owner has)⟩
      have talliedT : told.Tallied := tallied.revise tallies _ _ _
      rw [create_of_fresh found fresh kind]
      by_cases ordinary : cls.kind.isOrdinary = true
      · rw [if_pos ordinary]
        have nodup : source.ancestors.Nodup := (valid.follows.links found).nodup_ancestors
        refine createOrdinary talliedT nodup fun {upper record} found' resident => ?_
        -- A class that is listed anywhere says that instances of it are created.
        have listed : ∃ record, state.class? upper = some record ∧ cls.name ∈ record.inhabited := by
          rw [class?_revise] at found'
          split at found'
          · rename_i same
            cases found'
            exact ⟨cls, same ▸ found, resident⟩
          · exact ⟨record, found', resident⟩
        obtain ⟨_, found', resident⟩ := listed
        obtain ⟨below, hb, _, uses, _⟩ := valid.residents found' resident
        obtain rfl := Option.some.inj (found.symm.trans hb)
        rw [fresh] at uses
        cases uses
      · rw [if_neg ordinary]
        have ordinary := Bool.eq_false_iff.2 ordinary
        split
        · have asks : (told.addTasks (source.addUse .instances).superTasks).Tallied :=
            talliedT.of_class?_eq rfl
          exact (asks.markInstances foundT rfl ordinary).of_class?_eq rfl
        · exact talliedT.markInstances foundT rfl ordinary

/-- Calls that are noted are noted nowhere else. -/
theorem callDispatched (tallied : state.Tallied) (name : ClassName) (method : MethodName)
    (cause : Cause) : (state.callDispatched name method cause).Tallied := by
  cases found : state.class? name with
  | none =>
    simp only [State.callDispatched, found]
    exact tallied
  | some cls =>
    by_cases idle : (cls.kind.isJS || (method, cause) ∈ cls.calls) = true
    · rw [callDispatched_of_idle found idle]
      exact tallied
    · have before := tallied _ _ found
      have tallies : ClassRecord.Tallies { cls with calls := cls.calls ++ [(method, cause)] } :=
        ⟨before.nodup, before.kind, before.owner⟩
      rw [callDispatched_of_fresh found idle]
      refine (tallied.revise tallies name [] []).of_sameUse (sameUse_foldl _ (fun s below => ?_) _)
      split
      · exact sameUse_callAgain _ _ _ _
      · exact sameUse_callExact _ _ _ _

section

variable (fair : setting.IsFair) (full : ∀ fact, setting.facts fact) (valid : state.Valid setting)
  (tallied : state.Tallied)

include fair full valid tallied

theorem readModule (found : state.class? name = some cls) (present : cls.isPresent = true)
    (cause : Cause) : (state.readModule name cause).Tallied := by
  cases kind : cls.kind.isModule with
  | false =>
    rw [readModule_of_notModule found kind]
    exact tallied.of_class?_eq rfl
  | true =>
    cases read : cls.uses.module with
    | true =>
      rw [readModule_of_read found kind read]
      exact tallied
    | false =>
      have before := tallied _ _ found
      have tallies : (cls.addUse .module).Tallies := ⟨before.nodup, before.kind, before.owner⟩
      have change : Change setting state (state.revise name (cls.addUse .module) [] []) :=
        .update found (.use present (full _))
      have created := (tallied.revise tallies name [] []).create (change.valid fair valid)
        name cause
      rw [readModule_of_fresh found kind read]
      split
      · exact created.of_class?_eq rfl
      · exact created

/-- Doing something with a class that exists. -/
theorem act (found : state.class? cls.name = some cls) (present : cls.isPresent = true)
    (action : Action) (cause : Cause) : (state.act cls action cause).Tallied := by
  have before := tallied _ _ found
  have uses : ∀ use, use ≠ .instances →
      (state.modifyClass cls.name fun cls => cls.addUse use).Tallied := by
    intro use other
    have tallies : (cls.addUse use).Tallies := by
      refine ⟨before.nodup, ?_, ?_⟩ <;>
        cases use <;> first | exact absurd rfl other | exact before.kind | exact before.owner
    simp only [modifyClass, found, ← revise_nil]
    exact tallied.revise tallies cls.name [] []
  cases action with
  | fulfil demand =>
    cases demand with
    | use use =>
      cases use with
      | instances => exact tallied.create valid cls.name cause
      | module => exact tallied.readModule fair full valid found present cause
      | tests | typeData | staticFields | privateFields => exact uses _ (by simp)
    | call method => exact tallied.callDispatched cls.name method cause
    | callDirect key => exact tallied.of_sameUse (sameUse_callDirect _ _ _ _)
  | callExact method => exact tallied.of_sameUse (sameUse_callExact _ _ _ _)
  | enter => exact tallied.of_class?_eq rfl

theorem perform (task : Task) : (state.perform task).Tallied := by
  unfold State.perform
  split
  · rename_i new
    exact tallied.of_class?_eq (class?_setStatus (class?_eq_none_of_new new) rfl)
  · rename_i status
    exact tallied.of_class?_eq (class?_setStatus (class?_eq_none_of_status status rfl) rfl)
  · rename_i status
    exact tallied.of_class?_eq (class?_setStatus (class?_eq_none_of_status status rfl) rfl)
  · exact tallied
  · rename_i cls status
    have found : state.class? task.cls = some cls := class?_eq_some.2 status
    split
    · rename_i present
      exact tallied.act fair full valid (valid.follows.name_eq found ▸ found) present _ _
    · split <;> exact tallied.of_class?_eq rfl

end

/-- Classes that get linked tell of no instances. -/
theorem advance (tallied : state.Tallied) (advances : state.Advances setting next) :
    next.Tallied := by
  intro name record found
  rcases advances.links found with before | ⟨_, fresh⟩
  · exact tallied _ _ before
  · rw [← fresh]
    exact ⟨List.nodup_nil, fun uses => (by cases uses), fun has => (by cases has)⟩

end State.Tallied

theorem Turn.tallied (fair : setting.IsFair) (full : ∀ fact, setting.facts fact)
    (turn : Turn setting state next) (tallied : state.Tallied) : next.Tallied := by
  rcases turn.cases_perform fair with advances | ⟨task, rest, order, work, rfl⟩
  · exact tallied.advance advances
  · have taken : State.Tallied { state with work := rest } := tallied.of_class?_eq rfl
    exact taken.perform fair full (order.takes work).valid task

/-- Whatever state a run comes to, classes tell of no other instances than there are. -/
theorem Loader.Reaches.tallied {loader : Loader} {allow : Bool} {requirement : Requirement}
    (reaches : loader.Reaches allow requirement state) : state.Tallied := by
  obtain ⟨rooted, turns⟩ := reaches
  induction turns with
  | refl =>
    intro name cls found
    rw [State.class?_blank] at found
    cases found
  | tail _ turn ih => exact turn.tallied (isFair_settingFor rooted) (fun _ => trivial) ih

/-! ### The outcome -/

namespace Analysis

/-- Instances of the first class, an ordinary one, are created, and it lies at or below the
second. -/
def Inhabits (analysis : Analysis) (other name : ClassName) : Prop :=
  ∃ record, analysis.class? other = some record ∧ record.kind.isOrdinary = true ∧
    record.uses.instances = true ∧ name ∈ record.ancestors

/-- What is told of the instances of a class is exact, and what follows from there being any has
been seen to. -/
structure TellsInstances (analysis : Analysis) (name : ClassName) (cls : ClassRecord) : Prop where
  nodup : cls.inhabited.Nodup
  inhabited : ∀ other, other ∈ cls.inhabited ↔ analysis.Inhabits other name
  hasInstances : cls.hasInstances = true ↔
    (∃ other, analysis.Inhabits other name) ∨
      (cls.kind.isDefinedJS || cls.kind.isNativeJS) = true ∧ cls.uses.instances = true
  kind : cls.uses.instances = true → cls.kind.isInstantiable = true
  superClass : cls.kind.isDefinedJS = true → cls.uses.instances = true →
    ∀ parent record, cls.superClass = some parent → analysis.class? parent = some record →
      record.isPresent = true → record.uses.instances = true
  fields : cls.hasInstances = true → ∀ summary, cls.summary = some summary →
    ∀ field ∈ summary.fieldClasses, ∀ record, analysis.class? field = some record →
      record.isPresent = true → record.uses.typeData = true
  module : cls.isPresent = true → cls.kind.isModule = true → cls.uses.module = true →
    cls.uses.instances = true

end Analysis

/-- A super class that a JavaScript class is linked with, and that exists, can have instances. -/
theorem ClassKind.isInstantiable_of_mayExtend {kind superKind : ClassKind} {superClass : ClassName}
    (defined : kind.isDefinedJS = true) (accepted : kind.mayExtend superClass superKind = true) :
    superKind.isInstantiable = true := by
  cases kind <;> cases superKind <;>
    simp_all [isDefinedJS, mayExtend, mayExtendKind, mayExtendObject, isInstantiable, isOrdinary,
      isJS, isNativeJS]

namespace State

variable (order : state.InOrder setting) (settled : state.isSettled = true)

include order settled

/-- Where nothing is left to do, what instances of a class demand of another one is met. -/
theorem InOrder.fulfils_instanceDue (found : state.class? name = some cls)
    (has : cls.hasInstances = true) {due : Task} (mem : due ∈ cls.instanceDues) {demand : Demand}
    (action : due.action = .fulfil demand) (found' : state.class? due.cls = some record)
    (present : record.isPresent = true) : state.Fulfils record demand := by
  obtain ⟨met, found'', fulfils⟩ := order.meets_owed settled (.instances found has mem) action
    (order.valid.follows.classes_eq found')
  obtain rfl := Option.some.inj (found'.symm.trans found'')
  exact fulfils present

/-- Where nothing is left to do, what is told of instances is exact. -/
theorem InOrder.tellsInstances (fair : setting.IsFair) (tallied : state.Tallied)
    (found : state.class? name = some cls) : state.result.TellsInstances name cls := by
  have tallies := tallied _ _ found
  have inhabited : ∀ other, other ∈ cls.inhabited ↔ state.result.Inhabits other name := by
    intro other
    unfold Analysis.Inhabits
    simp only [class?_result]
    refine ⟨order.valid.residents found, fun ⟨record, found', kind, uses, mem⟩ => ?_⟩
    obtain ⟨_, found'', _, resident⟩ := (order.consistent.created found' uses).above kind mem
    obtain rfl := Option.some.inj (found.symm.trans found'')
    exact resident
  refine ⟨tallies.nodup, inhabited, ⟨fun has => ?_, fun some => ?_⟩, tallies.kind,
    fun defined uses parent record extends_ found' present => ?_,
    fun has summary known field mem record found' present => ?_, fun _ _ read => ?_⟩
  · rcases tallies.owner has with listed | ⟨uses, ordinary⟩
    · obtain ⟨other, rest, cons⟩ := List.exists_cons_of_ne_nil listed
      exact .inl ⟨other, (inhabited other).1 (cons ▸ List.mem_cons_self)⟩
    · have kind := tallies.kind uses
      rw [ClassKind.isInstantiable, ordinary, Bool.false_or] at kind
      exact .inr ⟨kind, uses⟩
  · rcases some with ⟨other, record, found', kind, uses, mem⟩ | ⟨kind, uses⟩
    · rw [class?_result] at found'
      obtain ⟨_, found'', has, _⟩ := (order.consistent.created found' uses).above kind mem
      obtain rfl := Option.some.inj (found.symm.trans found'')
      exact has
    · refine (order.consistent.created found uses).hasInstances ?_
      cases same : cls.kind <;> simp_all [ClassKind.isDefinedJS, ClassKind.isNativeJS,
        ClassKind.isOrdinary]
  · rw [class?_result] at found'
    have has := (order.consistent.created found uses).hasInstances
      (ClassKind.isOrdinary_of_isDefinedJS defined)
    have accepted := (order.valid.follows.isLinkedIn fair.rooted found).superClass parent record
      extends_ found' present
    exact order.fulfils_instanceDue settled found has
      (mem_instanceDues_of_superClass defined extends_) rfl found' present
      (ClassKind.isInstantiable_of_mayExtend defined accepted)
  · rw [class?_result] at found'
    exact order.fulfils_instanceDue settled found has (mem_instanceDues_of_field known mem) rfl
      found' present
  · exact (order.consistent.read found read).2

end State

/-- In the end of every run that gets past the check of the root class, what is told of instances is
exact for every linked class, whether or not it exists. -/
theorem analyze_instances {allow : Bool} {requirement : Requirement} {loader after : Loader}
    {analysis : Analysis} (ends : analyze allow requirement loader = (.ok analysis, after))
    (found : analysis.class? name = some cls) : analysis.TellsInstances name cls := by
  rcases analyze_course ends with ⟨empty, _⟩ | ⟨_, state, course, settled, rfl⟩
  · simp [Analysis.class?, empty] at found
  · rw [State.class?_result] at found
    exact course.inOrder.tellsInstances settled
      (Loader.isFair_settingFor course.reaches.rooted) course.reaches.tallied found

/-- A class below a class that does not exist, and one of JavaScript below a native one. -/
def families : List ClassDecl :=
  [.ofMethods .object .plain [] [],
    .ofMethods ⟨"B"⟩ .plain [⟨"A"⟩] [],
    .ofMethods ⟨"K"⟩ .nativeJS [.object] [],
    .ofMethods ⟨"J"⟩ .js [⟨"K"⟩] []]

/-- Creating instances of a class of each family is told of the class above it. -/
theorem analyze_instances_families :
    ∃ analysis after above native,
      analyze true (.instances "test" ⟨"B"⟩ .defaultConstructor +
        .instances "test" ⟨"J"⟩ .defaultConstructor) (Loader.ofDecls families) =
          (.ok analysis, after) ∧
      analysis.class? ⟨"A"⟩ = some above ∧ above.isPresent = false ∧ above.inhabited = [⟨"B"⟩] ∧
      analysis.class? ⟨"K"⟩ = some native ∧ native.hasInstances = true ∧
      native.inhabited = [] ∧
      analysis.TellsInstances ⟨"A"⟩ above ∧ analysis.TellsInstances ⟨"K"⟩ native := by
  have told : (analyze true (.instances "test" ⟨"B"⟩ .defaultConstructor +
      .instances "test" ⟨"J"⟩ .defaultConstructor) (Loader.ofDecls families)).1.toOption.map
        (fun analysis => ((analysis.class? ⟨"A"⟩).map fun cls => (cls.isPresent, cls.inhabited),
          (analysis.class? ⟨"K"⟩).map fun cls => (cls.hasInstances, cls.inhabited))) =
      some (some (false, [⟨"B"⟩]), some (true, [])) := by decide +kernel
  obtain ⟨analysis, after, ends, seen⟩ := exists_of_toOption_map told
  obtain ⟨seenA, seenK⟩ := Prod.mk.inj seen
  obtain ⟨above, foundA, hA⟩ := Option.map_eq_some_iff.1 seenA
  obtain ⟨native, foundK, hK⟩ := Option.map_eq_some_iff.1 seenK
  obtain ⟨absent, listed⟩ := Prod.mk.inj hA
  obtain ⟨has, none⟩ := Prod.mk.inj hK
  exact ⟨analysis, after, above, native, ends, foundA, absent, listed, foundK, has, none,
    analyze_instances ends foundA, analyze_instances ends foundK⟩

end ClassLinker
