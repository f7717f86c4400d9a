import ClassLinker.Proofs.Accounts
import ClassLinker.Proofs.Callers
import ClassLinker.Proofs.Hiding
import ClassLinker.Proofs.Repeats
import ClassLinker.Proofs.Serving

/-!
# Tasks that are absorbed

A demand that has been fulfilled for a cause has left its marks in the state: the class is used, the
call is noted, the caller is entered in the method that the call reaches. Where they are, the same
task does nothing, except that errors are reported again.

* `State.Honours`: the marks of a demand, and `State.Absorbs`: those of a task, which may also wait
  for its class, or be for a class that has failed or does not exist;
* `State.Absorbs.mirrors`: doing the task repeats what waits or has been reported, and nothing else;
* `State.absorbs_perform`: a task that is done is absorbed from then on
  (`State.Absorbs.perform`).

Direct calls of reflective proxies are left out, for such a call is resolved like any other, and so
finds the proxy that a reflective call adds in place of what it has found before.
-/

namespace ClassLinker

variable {setting : Setting} {state next : State}
variable {name other owner : ClassName} {cls record : ClassRecord} {task : Task}
variable {key : MethodKey} {entry : MethodRecord} {method : MethodName} {cause : Cause}
variable {demand : Demand} {errors : List Diagnostic} {id : MethodId}

/-- The demand is not a direct call of a reflective proxy. -/
def Demand.IsRepeatable (demand : Demand) : Prop :=
  ∀ method, demand = .callDirect ⟨.publicInstance, method⟩ → method.isProxy = false

/-- The task fulfils a demand of this kind. -/
def Task.IsRepeatable (task : Task) : Prop :=
  ∃ demand, task.action = .fulfil demand ∧ demand.IsRepeatable

namespace State

/-! ### Marks -/

/-- The method is reachable, and the cause is one of its callers. -/
structure IsCalledBy (state : State) (id : MethodId) (cause : Cause) : Prop where
  caller : state.HasCaller id cause
  reached : state.IsReached id

/-- Resolving the method for instances of the class leads to the owner, with these errors, and adds
no bridge. -/
inductive ResolvesTo (state : State) (name : ClassName) (method : MethodName) (cause : Cause) :
    ClassName → List Diagnostic → Prop
  | inherited {owner : ClassName} (implementor : Implementor state.class? method name owner) :
      ResolvesTo state name method cause owner []
  | default {first : ClassName} {others : List ClassName}
      (lacks : ∀ owner, ¬ Implementor state.class? method name owner)
      (owners : state.defaultOwners name method = first :: others)
      (bare : state.allowForwarders = false ∨
        ∃ cls, state.class? name = some cls ∧ cls.kind = .interface) :
      ResolvesTo state name method cause first (conflictErrors method (first :: others) cause)
  | missing (lacks : state.LacksCode name method) :
      ResolvesTo state name method cause name
        [.missingMethod ⟨name, .publicInstance, method⟩ cause]

/-- The method is resolved for instances of the class without a trace: what it leads to has the
caller, and the errors have been reported. -/
def HasTarget (state : State) (name : ClassName) (method : MethodName) (cause : Cause) : Prop :=
  ∃ owner errors, state.ResolvesTo name method cause owner errors ∧
    state.IsCalledBy ⟨owner, .publicInstance, method⟩ cause ∧ errors ⊆ state.errors

/-- The demand has been fulfilled for the cause. -/
def Honours (state : State) (cls : ClassRecord) (cause : Cause) : Demand → Prop
  | .use .instances =>
    cause ∈ cls.creators ∧ (cls.uses.instances || !cls.kind.isInstantiable) = true
  | .use .module =>
    if cls.kind.isModule then cls.uses.module = true
    else .notAModule cls.name cause ∈ state.errors
  | .use use => cls.uses.contains use = true
  | .call method => cls.kind.isJS = true ∨ (method, cause) ∈ cls.calls
  | .callDirect key =>
    if key.space = .publicInstance then state.HasTarget cls.name key.name cause
    else state.IsCalledBy (cls.idOf key) cause

/-- The class is linked, and the demand has been fulfilled for the cause. -/
def Recalls (state : State) (name : ClassName) (cause : Cause) (demand : Demand) : Prop :=
  ∃ cls, state.class? name = some cls ∧ state.Honours cls cause demand

/-- The task has been done, or it waits for its class, or it is for a class that has failed. -/
inductive Absorbs (state : State) (task : Task) : Prop
  | waits (parked : task ∈ state.parkedWith task.cls)
  | dropped (failed : state.status? task.cls = some .failed)
  | absent {cls : ClassRecord} (found : state.class? task.cls = some cls)
      (absent : cls.isPresent = false) (reported : task.missing ⊆ state.errors)
  | done {cls : ClassRecord} {demand : Demand} (found : state.class? task.cls = some cls)
      (present : cls.isPresent = true) (action : task.action = .fulfil demand)
      (honours : state.Honours cls task.cause demand)

/-! ### Doing it again -/

theorem setStatus_self {status : Status} (at_ : state.status? name = some status) :
    state.setStatus name status = state := by
  rw [setStatus, insert_eq_self at_]

theorem setClass_self (found : state.class? name = some cls) : state.setClass name cls = state :=
  setStatus_self (class?_eq_some.1 found)

/-- A method that has been reported is there already. -/
theorem reportMissing_of_entered (has : state.method? id = some entry) (cause : Cause) :
    state.reportMissing id cause = state.extend [] [.missingMethod id cause] := by
  obtain ⟨cls, found, has⟩ := Option.bind_eq_some_iff.1 has
  simp only [reportMissing, modifyClass, found, has, setClass_self, report_eq]

/-- A caller is entered once. -/
theorem addCaller_of_called (called : state.IsCalledBy id cause) :
    state.addCaller id cause = state := by
  obtain ⟨⟨entry, at_, mem⟩, ⟨_, at_', reached⟩⟩ := called
  obtain rfl := Option.some.inj (at_.symm.trans at_')
  obtain ⟨cls, found, has⟩ := Option.bind_eq_some_iff.1 at_
  have called_eq : entry.calledBy cause = entry := by
    rw [MethodRecord.calledBy, recordOnce, if_pos mem, ← reached]
  have same : cls.withCall id.key entry cause = cls := by
    rw [ClassRecord.withCall, called_eq, insert_eq_self has]
  rw [addCaller_eq found has, same, ClassRecord.callTasks, if_pos reached, revise_nil,
    setClass_self found]

/-- Where no bridge can be added, this can be read off the class. -/
theorem isBare (found : state.class? name = some cls)
    (bare : state.allowForwarders = false ∨
      ∃ cls, state.class? name = some cls ∧ cls.kind = .interface) :
    (cls.kind = .interface || !state.allowForwarders) = true := by
  rcases bare with bare | ⟨record, found', kind⟩
  · simp [bare]
  · obtain rfl := Option.some.inj (found.symm.trans found')
    simp [kind]

/-- A use that has been made changes nothing when it is made again. -/
theorem modifyClass_addUse {use : Use} (found : state.class? name = some cls)
    (used : cls.uses.contains use = true) :
    (state.modifyClass name fun cls => cls.addUse use) = state := by
  have uses : cls.uses.insert use = cls.uses := by
    refine Uses.ext_contains fun other => ?_
    rw [Uses.contains_insert]
    by_cases is_use : other = use <;> simp [is_use, used]
  have same : cls.addUse use = cls := by rw [ClassRecord.addUse, uses]
  simp only [modifyClass, found, same, setClass_self]

section

variable (fair : setting.IsFair) (valid : state.Valid setting)
  (found : state.class? name = some cls)

include fair valid found

/-- Where the method that resolution leads to has been entered, resolving it again repeats the
errors at most. -/
theorem ResolvesTo.resolve_eq (resolves : state.ResolvesTo name method cause owner errors)
    (has : state.method? ⟨owner, .publicInstance, method⟩ = some entry) :
    state.resolve name method cause =
      (⟨owner, .publicInstance, method⟩, state.extend [] errors) := by
  cases resolves with
  | inherited implementor =>
    simp only [resolve, (superImplementor?_eq_some valid.follows fair.rooted found).2 implementor,
      extend_nil]
  | default lacks owners bare =>
    have inherited := (superImplementor?_eq_none valid.follows fair.rooted found).2 lacks
    rw [State.resolve_eq found inherited owners, if_pos (isBare found bare)]
  | missing lacks =>
    have inherited := (superImplementor?_eq_none valid.follows fair.rooted found).2 lacks.lacks
    simp only [resolve, inherited, lacks.owners, reportMissing_of_entered has]

/-- A call with a fixed target that has been made for the cause repeats errors at most. -/
theorem Honours.callDirect_eq (honours : state.Honours cls cause (.callDirect key)) :
    ∃ errors ⊆ state.errors, state.callDirect cls.name key cause = state.extend [] errors := by
  obtain rfl := valid.follows.name_eq found
  simp only [callDirect]
  by_cases space : key.space = .publicInstance
  · simp only [Honours, if_pos space] at honours
    obtain ⟨owner, errors, resolves, called, reported⟩ := honours
    obtain ⟨entry, has, _⟩ := called.caller
    have called : (state.extend [] errors).IsCalledBy ⟨owner, .publicInstance, key.name⟩ cause :=
      ⟨called.caller, called.reached⟩
    simp only [if_pos space, resolves.resolve_eq fair valid found has,
      addCaller_of_called called]
    exact ⟨errors, reported, rfl⟩
  · simp only [Honours, if_neg space] at honours
    obtain ⟨entry, at_, _⟩ := honours.caller
    have has : cls.method? key = some entry := by
      rwa [ClassRecord.idOf, method?, found, Option.bind_some] at at_
    have same : state.addCaller ⟨cls.name, key.space, key.name⟩ cause = state :=
      addCaller_of_called honours
    simp only [if_neg space, found, has, same]
    exact ⟨[], List.nil_subset _, (extend_nil state).symm⟩

/-- Where the demand has been fulfilled for the cause, doing so again repeats errors at most. -/
theorem Honours.act_eq (honours : state.Honours cls cause demand) :
    ∃ errors ⊆ state.errors, state.act cls (.fulfil demand) cause = state.extend [] errors := by
  obtain rfl := valid.follows.name_eq found
  have idle : ∃ errors ⊆ state.errors, state = state.extend [] errors :=
    ⟨[], List.nil_subset _, (extend_nil state).symm⟩
  cases demand with
  | use use =>
    cases use with
    | instances =>
      obtain ⟨mem, created⟩ := honours
      have same : { cls with creators := recordOnce cls.creators cause } = cls := by
        rw [recordOnce, if_pos mem]
      simp only [act, useClass]
      rw [create_of_idle found created, same, revise_nil, setClass_self found]
      exact idle
    | module =>
      simp only [act, useClass]
      cases kind : cls.kind.isModule with
      | true =>
        have read : cls.uses.module = true := by simpa [Honours, kind] using honours
        rw [readModule_of_read found kind read]
        exact idle
      | false =>
        have reported : .notAModule cls.name cause ∈ state.errors := by
          simpa [Honours, kind] using honours
        rw [readModule_of_notModule found kind]
        exact ⟨_, by simpa using reported, rfl⟩
    | tests | typeData | staticFields | privateFields =>
      simp only [act, useClass]
      rw [modifyClass_addUse found honours]
      exact idle
  | call method =>
    have noted : (cls.kind.isJS || (method, cause) ∈ cls.calls) = true := by
      simpa [Honours] using honours
    simp only [act]
    rw [callDispatched_of_idle found noted]
    exact idle
  | callDirect key => exact honours.callDirect_eq fair valid found

end

/-- Doing a task again repeats what waits or has been reported, and nothing else. -/
theorem Absorbs.mirrors (fair : setting.IsFair) (valid : state.Valid setting)
    (absorbs : state.Absorbs task) (may : task.IsRepeatable) (known : Task → Prop) :
    state.Mirrors (.repeats Task.IsRepeatable known) (state.perform task) := by
  have unchanged : state.Mirrors (.repeats Task.IsRepeatable known) state :=
    Mirrors.refl_repeats state
  have reports : ∀ {errors}, errors ⊆ state.errors →
      state.Mirrors (.repeats Task.IsRepeatable known) (state.extend [] errors) := by
    intro errors reported
    exact { unchanged with
      work := by
        show Repeats _ _ _ (_ ++ [])
        rw [List.append_nil]
        exact .refl ..
      errors := (Repeats.refl _ _).repeat_mem (fun _ mem => reported mem) fun _ _ => trivial }
  have parks : ∀ {status status'}, state.status? task.cls = some status →
      Status.Mirrors (.repeats Task.IsRepeatable known) status status' →
        state.Mirrors (.repeats Task.IsRepeatable known) (state.setStatus task.cls status') := by
    intro status status' at_ same
    have set := unchanged.setStatus task.cls same
    rwa [setStatus_self at_] at set
  have repeated : ∀ {parked : List Task}, task ∈ parked →
      Repeats Task.IsRepeatable (fun _ => False) parked (parked ++ [task]) := by
    intro parked mem
    exact (Repeats.refl _ _).repeat_mem (by simpa using mem) (by simpa using may)
  cases absorbs with
  | waits mem =>
    -- The task is parked behind itself.
    unfold parkedWith at mem
    cases at_ : state.status? task.cls with
    | none => simp [at_] at mem
    | some status =>
      have mem : task ∈ status.parked := by simpa [at_] using mem
      unfold perform
      rw [at_]
      cases status with
      | awaited parked => exact parks at_ (.awaited (repeated mem))
      | loaded summary parked => exact parks at_ (.loaded summary (repeated mem))
      | linked | failed => cases mem
  | dropped failed =>
    simp only [perform, failed]
    exact unchanged
  | @absent cls found absent reported =>
    rw [perform_of_absent found absent]
    exact reports reported
  | @done cls demand found present action honours =>
    obtain ⟨errors, reported, same⟩ := honours.act_eq fair valid found
    rw [perform_of_present found present, action, same]
    exact reports reported

/-! ### What stays -/

/-- What resolution leads to is not replaced by a bridge. -/
theorem ResolvesTo.kept (valid : state.Valid setting) (found : state.class? name = some cls)
    (resolves : state.ResolvesTo name method cause owner errors) :
    (∃ nearest, Implementor state.class? method owner nearest) ∨
      state.defaultOwners owner method = [] := by
  cases resolves with
  | inherited implementor =>
    obtain ⟨record, at_, has⟩ := implementor.has_code
    exact .inl ⟨owner, .here at_ has⟩
  | @default _ others _ owners =>
    obtain ⟨_, record, at_, _, has⟩ := exists_of_defaultOwners valid.follows found owners
    exact .inl ⟨owner, .here at_ has⟩
  | missing lacks => exact .inr lacks.owners

end State

section

variable (fair : setting.IsFair) (valid : state.Valid setting)

include fair valid

theorem Change.resolvesTo (change : Change setting state next)
    (direct : (method.isProxy && setting.allow) = false) (found : state.class? name = some cls)
    (resolves : state.ResolvesTo name method cause owner errors) :
    next.ResolvesTo name method cause owner errors := by
  cases resolves with
  | inherited implementor =>
    exact .inherited (change.keepsImplementor fair valid direct implementor)
  | default lacks owners bare =>
    refine .default (fun later implementor => ?_)
      ((change.defaultOwners_eq fair valid found method).trans owners) ?_
    · rcases bare with bare | ⟨_, at_, kind⟩
      · have bare : setting.allow = false := valid.allow ▸ bare
        exact change.keepsLacking fair valid direct found (.inl bare) lacks later implementor
      · -- An interface has only the code that it declares, and that has been there before.
        obtain ⟨record, found', growth⟩ := change.grows.classes at_
        have declared := (change.valid fair valid).declares_of_interface found'
          (growth.kind_eq.trans kind) implementor
        obtain ⟨nearest, before⟩ := valid.exists_implementor fair found declared
        exact lacks nearest before
    · refine bare.imp (fun bare => change.grows.allow.trans bare) ?_
      rintro ⟨_, at_, kind⟩
      obtain ⟨record, found', growth⟩ := change.grows.classes at_
      exact ⟨record, found', growth.kind_eq.trans kind⟩
  | missing lacks => exact .missing (change.lacksCode fair valid direct found lacks)

theorem Change.hasTarget (change : Change setting state next)
    (direct : (method.isProxy && setting.allow) = false) (found : state.class? name = some cls)
    (target : state.HasTarget name method cause) : next.HasTarget name method cause := by
  obtain ⟨owner, errors, resolves, called, reported⟩ := target
  refine ⟨owner, errors, change.resolvesTo fair valid direct found resolves, ⟨?_, ?_⟩, ?_⟩
  · exact change.hasCaller fair valid (fun _ => .inr (resolves.kept valid found)) called.caller
  · exact change.grows.isReached called.reached
  · exact fun _ mem => change.grows.errors.subset (reported mem)

/-- A demand that has been fulfilled for a cause stays so. -/
theorem Change.honours (change : Change setting state next) (found : state.class? name = some cls)
    (growth : cls.Grows record) (may : demand.IsRepeatable)
    (honours : state.Honours cls cause demand) : next.Honours record cause demand := by
  obtain rfl := valid.follows.name_eq found
  cases demand with
  | use use =>
    cases use with
    | instances =>
      obtain ⟨mem, created⟩ := honours
      refine ⟨growth.creators.subset mem, ?_⟩
      rw [growth.kind_eq]
      rcases Bool.or_eq_true_iff.1 created with created | none
      · rw [growth.created created, Bool.true_or]
      · rw [none, Bool.or_true]
    | module =>
      simp only [State.Honours, growth.kind_eq, growth.name_eq] at honours ⊢
      split at honours
      · rename_i kind
        rw [if_pos kind]
        exact growth.read honours
      · rename_i kind
        rw [if_neg kind]
        exact change.grows.errors.subset honours
    | tests | typeData | staticFields | privateFields => exact growth.uses honours
  | call method =>
    simp only [State.Honours, growth.kind_eq] at honours ⊢
    exact honours.imp_right fun mem => growth.calls.subset mem
  | callDirect key =>
    simp only [State.Honours, ClassRecord.idOf, growth.name_eq] at honours ⊢
    split at honours
    · rename_i space
      rw [if_pos space]
      have direct : (key.name.isProxy && setting.allow) = false := by
        rw [may key.name (by rw [← space]), Bool.false_and]
      exact change.hasTarget fair valid direct found honours
    · rename_i space
      rw [if_neg space]
      exact ⟨change.hasCaller fair valid (fun h => absurd h space) honours.caller,
        change.grows.isReached honours.reached⟩

theorem Changes.recalls (changes : Changes setting state next) (may : demand.IsRepeatable)
    (recalls : state.Recalls name cause demand) : next.Recalls name cause demand := by
  induction changes with
  | refl => exact recalls
  | tail early change ih =>
    obtain ⟨cls, found, honours⟩ := ih
    obtain ⟨record, found', growth⟩ := change.grows.classes found
    exact ⟨record, found',
      change.honours fair (Changes.valid fair early valid) found growth may honours⟩

theorem Changes.resolvesTo (changes : Changes setting state next)
    (direct : (method.isProxy && setting.allow) = false) (found : state.class? name = some cls)
    (resolves : state.ResolvesTo name method cause owner errors) :
    next.ResolvesTo name method cause owner errors := by
  induction changes with
  | refl => exact resolves
  | tail early change ih =>
    obtain ⟨record, found', _⟩ := (Changes.grows early).classes found
    exact change.resolvesTo fair (Changes.valid fair early valid) direct found' ih

end

namespace State

/-! ### Doing it for the first time -/

/-- A method where a call has landed has the caller. -/
theorem isCalledBy_called (found : state.class? owner = some cls) :
    (state.called owner cls key entry cause errors).IsCalledBy ⟨owner, key.space, key.name⟩
      cause := by
  have at_ : (state.called owner cls key entry cause errors).method?
      ⟨owner, key.space, key.name⟩ = some (entry.calledBy cause) := by
    rw [method?_called found, if_pos ⟨rfl, rfl⟩]
  exact ⟨⟨_, at_, mem_recordOnce.2 (.inr rfl)⟩, ⟨_, at_, rfl⟩⟩

section

variable (fair : setting.IsFair) (valid : state.Valid setting)
  (found : state.class? name = some cls)

include fair valid found

/-- A call that has been resolved finds the same target from then on, a bridge if it has added
one. -/
theorem resolvesTo_callResolved (direct : (method.isProxy && setting.allow) = false)
    (changes : Changes setting state (state.callResolved name method cause)) :
    ∃ owner errors, (state.resolve name method cause).1 = ⟨owner, .publicInstance, method⟩ ∧
      (state.callResolved name method cause).ResolvesTo name method cause owner errors ∧
      (state.callResolved name method cause).IsCalledBy ⟨owner, .publicInstance, method⟩ cause ∧
      errors ⊆ (state.callResolved name method cause).errors := by
  obtain ⟨owner, record, entry, errors, found', resolved, target, same⟩ :=
    resolved_resolve fair valid found method cause
  have next_eq : state.callResolved name method cause =
      state.called owner record ⟨.publicInstance, method⟩ entry cause errors := same
  have errors_eq : (state.callResolved name method cause).errors =
      (state.resolve name method cause).2.errors :=
    errors_addCaller ..
  have called : (state.callResolved name method cause).IsCalledBy
      ⟨owner, .publicInstance, method⟩ cause := by
    rw [next_eq]
    exact isCalledBy_called found'
  have stays : ∀ {errors}, state.ResolvesTo name method cause owner errors →
      (state.callResolved name method cause).ResolvesTo name method cause owner errors :=
    fun resolves => Changes.resolvesTo fair valid changes direct found resolves
  cases resolved with
  | inherited implementor =>
    exact ⟨owner, _, target, stays (.inherited implementor), called, List.nil_subset _⟩
  | default lacks owners bare =>
    refine ⟨owner, _, target, stays (.default lacks owners bare), called, ?_⟩
    have inherited := (superImplementor?_eq_none valid.follows fair.rooted found).2 lacks
    rw [errors_eq, State.resolve_eq found inherited owners, if_pos (isBare found bare)]
    exact List.subset_append_right ..
  | missing lacks =>
    refine ⟨name, _, target, stays (.missing lacks), called, ?_⟩
    rw [next_eq]
    exact List.subset_append_right ..
  | @bridge first =>
    -- From now on the bridge is found, as code of the class itself, without looking for defaults.
    have code : (record.withCall ⟨.publicInstance, method⟩
        { id := ⟨name, .publicInstance, method⟩, forwarder := some (.bridge first) }
        cause).hasConcrete method = true := by
      rw [ClassRecord.hasConcrete, ClassRecord.method?_withCall, if_pos rfl]
      rfl
    refine ⟨name, [], target, .inherited ?_, called, List.nil_subset _⟩
    rw [next_eq]
    exact .here (by rw [State.called, class?_revise, if_pos rfl]) code

/-- So does a direct call of a public method. -/
theorem hasTarget_callDirect (direct : (method.isProxy && setting.allow) = false)
    (changes : Changes setting state (state.callDirect name ⟨.publicInstance, method⟩ cause)) :
    (state.callDirect name ⟨.publicInstance, method⟩ cause).HasTarget name method cause := by
  obtain ⟨owner, errors, _, target⟩ := resolvesTo_callResolved fair valid found direct changes
  exact ⟨owner, errors, target⟩

end

theorem recalls_use {use : Use} (found : state.class? name = some cls)
    (notInstances : use ≠ .instances) (notModule : use ≠ .module) :
    (state.modifyClass name fun cls => cls.addUse use).Recalls name cause (.use use) := by
  have next_eq : (state.modifyClass name fun cls => cls.addUse use) =
      state.setClass name (cls.addUse use) := by
    simp only [modifyClass, found]
  have used : (cls.addUse use).uses.contains use = true := by
    rw [ClassRecord.addUse, Uses.contains_insert, decide_eq_true rfl, Bool.true_or]
  refine ⟨cls.addUse use, by rw [next_eq, class?_setClass, if_pos rfl], ?_⟩
  cases use with
  | instances => exact absurd rfl notInstances
  | module => exact absurd rfl notModule
  | tests | typeData | staticFields | privateFields => exact used

theorem recalls_callDirect (fair : setting.IsFair) (valid : state.Valid setting)
    (found : state.class? name = some cls)
    (changes : Changes setting state (state.callDirect name key cause))
    (may : (Demand.callDirect key).IsRepeatable) :
    (state.callDirect name key cause).Recalls name cause (.callDirect key) := by
  obtain ⟨record, found', growth⟩ := (Changes.grows changes).classes found
  have name_eq : record.name = name := growth.name_eq.trans (valid.follows.name_eq found)
  refine ⟨record, found', ?_⟩
  simp only [Honours, ClassRecord.idOf, name_eq]
  split
  · rename_i space
    have key_eq : key = ⟨.publicInstance, key.name⟩ := by rw [← space]
    have direct : (key.name.isProxy && setting.allow) = false := by
      rw [may key.name (by rw [← key_eq]), Bool.false_and]
    rw [key_eq] at changes ⊢
    exact hasTarget_callDirect fair valid found direct changes
  · rename_i space
    have lands := lands_callDirect fair valid found key cause
    generalize state.callDirect name key cause = next at lands ⊢
    cases lands with
    | intro found' landing =>
      cases landing with
      | resolved => exact absurd rfl space
      | own | absent => exact isCalledBy_called found'
      | proxy => exact absurd rfl space

section

variable (fair : setting.IsFair) (full : ∀ fact, setting.facts fact) (valid : state.Valid setting)
  (found : state.class? task.cls = some cls) (present : cls.isPresent = true)

include fair full valid found present

theorem recalls_readModule :
    (state.readModule task.cls task.cause).Recalls task.cls task.cause (.use .module) := by
  have name_eq := valid.follows.name_eq found
  cases kind : cls.kind.isModule with
  | false =>
    rw [readModule_of_notModule found kind]
    refine ⟨cls, found, ?_⟩
    simp only [Honours, kind, name_eq]
    exact List.mem_append_right _ List.mem_cons_self
  | true =>
    cases read : cls.uses.module with
    | true =>
      rw [readModule_of_read found kind read]
      exact ⟨cls, found, by simp only [Honours, kind, read, if_true]⟩
    | false =>
      obtain ⟨performs, record, found', read'⟩ := performs_readModule_first fair valid found present
        kind read (full _) task.cause
      obtain ⟨_, at_, growth⟩ := (Changes.grows performs.changes).classes found
      obtain rfl := Option.some.inj (found'.symm.trans at_)
      exact ⟨record, found', by simp only [Honours, growth.kind_eq, kind, read', if_true]⟩

variable (justified : setting.Justifies task)

include justified

theorem recalls_create (asked : task.action = .fulfil (.use .instances)) :
    (state.create task.cls task.cause).Recalls task.cls task.cause (.use .instances) := by
  let source : ClassRecord := { cls with creators := recordOnce cls.creators task.cause }
  have mem : task.cause ∈ source.creators := mem_recordOnce.2 (.inr rfl)
  cases idle : (cls.uses.instances || !cls.kind.isInstantiable) with
  | true =>
    rw [create_of_idle found idle]
    exact ⟨source, by rw [class?_revise, if_pos rfl], mem, idle⟩
  | false =>
    have fresh : cls.uses.instances = false ∧ cls.kind.isInstantiable = true := by
      simpa using idle
    -- The creator is recorded before anything else, and what follows only adds to that.
    let told := state.revise task.cls (source.addUse .instances) [] []
    have early : Effects task state told :=
      effects_addInstances found present (.inl asked) fresh.2
    have late : Effects task told (state.create task.cls task.cause) :=
      effects_create_told fair full valid justified found present (.inl asked) fresh.1 fresh.2
    have validT := Changes.valid fair (Effects.changes fair full valid justified early) valid
    have recalls : told.Recalls task.cls task.cause (.use .instances) :=
      ⟨source.addUse .instances, by rw [class?_revise, if_pos rfl], mem, rfl⟩
    exact Changes.recalls fair validT (Effects.changes fair full validT justified late)
      (by rintro _ ⟨⟩) recalls

theorem recalls_callDispatched (consistent : state.Consistent)
    (asked : task.action = .fulfil (.call method)) :
    (state.callDispatched task.cls method task.cause).Recalls task.cls task.cause
      (.call method) := by
  by_cases idle : (cls.kind.isJS || (method, task.cause) ∈ cls.calls) = true
  · rw [callDispatched_of_idle found idle]
    exact ⟨cls, found, by simpa [Honours] using idle⟩
  · obtain ⟨note, spreads⟩ :=
      spreads_callDispatched fair full valid justified found consistent present asked idle
    have valid := Changes.valid fair (note.changes fair full valid justified) valid
    refine Changes.recalls fair valid
      (Effects.changes fair full valid justified (Spreads.effects spreads)) (by rintro _ ⟨⟩) ?_
    exact ⟨_, by rw [class?_revise, if_pos rfl], by simp [Honours]⟩

/-- A demand has been fulfilled for its cause once the task is done. -/
theorem recalls_act (consistent : state.Consistent) (action : task.action = .fulfil demand)
    (may : demand.IsRepeatable) :
    (state.act cls task.action task.cause).Recalls task.cls task.cause demand := by
  have name_eq := valid.follows.name_eq found
  have changes := Effects.changes fair full valid justified
    (effects_act fair full valid justified found consistent present)
  rw [action] at changes ⊢
  simp only [act, useClass, name_eq] at changes ⊢
  cases demand with
  | use use =>
    cases use with
    | instances => exact recalls_create fair full valid found present justified action
    | module => exact recalls_readModule fair full valid found present
    | tests | typeData | staticFields | privateFields =>
      exact recalls_use found (by simp) (by simp)
  | call method =>
    exact recalls_callDispatched fair full valid found present justified consistent action
  | callDirect key => exact recalls_callDirect fair valid found changes may

end

section

variable (fair : setting.IsFair) (full : ∀ fact, setting.facts fact) (valid : state.Valid setting)
  (consistent : state.Consistent) (justified : setting.Justifies task)

include fair full valid consistent justified

/-- A task that is done is absorbed from then on. -/
theorem absorbs_perform (may : task.IsRepeatable) : (state.perform task).Absorbs task := by
  obtain ⟨demand, action, may⟩ := may
  have grows := Changes.grows (performs fair valid consistent justified).changes
  obtain ⟨_, ⟨⟨cls, found⟩, _⟩ | ⟨failed, same⟩ | ⟨_, parked⟩⟩ :=
    perform_cases fair valid consistent justified
  · obtain ⟨record, found', growth⟩ := grows.classes found
    cases present : cls.isPresent with
    | true =>
      have does := perform_of_present found present
      obtain ⟨_, at_, honours⟩ :=
        recalls_act fair full valid found present justified consistent action may
      rw [← does] at at_ honours
      obtain rfl := Option.some.inj (found'.symm.trans at_)
      exact .done found' (growth.isPresent_eq.trans present) action honours
    | false =>
      refine .absent found' (growth.isPresent_eq.trans present) ?_
      rw [perform_of_absent found present]
      exact List.subset_append_right ..
  · exact .dropped (by rw [same]; exact failed)
  · refine .waits ?_
    rw [parked, tasksFor_singleton_self]
    exact List.mem_append_right _ List.mem_cons_self

omit full in
/-- What is absorbed stays so, whatever task is done. -/
theorem Absorbs.perform {earlier : Task} (absorbs : state.Absorbs earlier)
    (may : earlier.IsRepeatable) : (state.perform task).Absorbs earlier := by
  have changes := (performs fair valid consistent justified).changes
  have grows := Changes.grows changes
  cases absorbs with
  | waits parked =>
    refine .waits ?_
    obtain ⟨_, ⟨_, same⟩ | ⟨_, same⟩ | ⟨_, more⟩⟩ := perform_cases fair valid consistent justified
    · rwa [same]
    · rwa [same]
    · rw [more]
      exact List.mem_append_left _ parked
  | dropped failed => exact .dropped (grows.failed failed)
  | absent found absent reported =>
    obtain ⟨record, found', growth⟩ := grows.classes found
    exact .absent found' (growth.isPresent_eq.trans absent)
      fun _ mem => grows.errors.subset (reported mem)
  | done found present action honours =>
    obtain ⟨demand, action', may⟩ := may
    cases action.symm.trans action'
    obtain ⟨record, found', growth⟩ := grows.classes found
    obtain ⟨_, at_, honours⟩ := Changes.recalls fair valid changes may ⟨_, found, honours⟩
    obtain rfl := Option.some.inj (found'.symm.trans at_)
    exact .done found' (growth.isPresent_eq.trans present) action honours

end

end State

end ClassLinker
