import ClassLinker.Proofs.Landings

/-!
# Calls

Wherever a call lands, it amounts to a few steps of two forms: a method is entered in a class, or
errors are reported. `Call setting state next` is such a step. Calls leave everything about classes
but their methods as it is (`Calls.sameUse`).

* `Landing.calls`: landing is a few steps;
* `Resolved.answered`: a call that is resolved is answered;
* `State.calls_callExact`, `State.calls_callAgain` and `State.calls_callDirect`: what the operations
  come to.
-/

namespace ClassLinker

variable {setting : Setting} {state next : State}
variable {name other owner : ClassName} {cls record : ClassRecord}
variable {key : MethodKey} {entry : MethodRecord} {method : MethodName} {task : Task}

/-- A step of a call. -/
inductive Call (setting : Setting) (state : State) : State → Prop
  | enter {name : ClassName} {cls : ClassRecord} {cause : Cause} {key : MethodKey}
      {entry : MethodRecord} {errors : List Diagnostic} (found : state.class? name = some cls)
      (enters : Enters setting state cls cause key entry errors) :
      Call setting state
        (state.revise name (cls.withCall key entry cause) (cls.callTasks entry) errors)
  | report (errors : List Diagnostic) : Call setting state (state.extend [] errors)

/-- The steps of some calls. -/
abbrev Calls (setting : Setting) : State → State → Prop :=
  Relation.ReflTransGen (Call setting)

/-- The class without its methods. -/
def ClassRecord.withoutMethods (cls : ClassRecord) : ClassRecord :=
  { cls with methods := ∅ }

/-- The same classes are linked, and they differ in their methods only. -/
def State.SameUse (before after : State) : Prop :=
  ∀ name, (after.class? name).map ClassRecord.withoutMethods =
    (before.class? name).map ClassRecord.withoutMethods

theorem Call.change (call : Call setting state next) : Change setting state next := by
  cases call with
  | enter found enters => exact .update found (.call enters)
  | report errors => exact .extend errors fun _ mem => by cases mem

theorem Calls.changes (calls : Calls setting state next) : Changes setting state next :=
  (Relation.ReflTransGen.mono fun _ _ => Call.change) _ _ calls

namespace State.SameUse

theorem refl (state : State) : state.SameUse state := fun _ => rfl

theorem trans {first second third : State} (early : first.SameUse second)
    (late : second.SameUse third) : first.SameUse third :=
  fun name => (late name).trans (early name)

theorem symm {before after : State} (same : before.SameUse after) : after.SameUse before :=
  fun name => (same name).symm

theorem found {before after : State} (same : before.SameUse after)
    (found : before.class? name = some cls) :
    ∃ record, after.class? name = some record ∧
      record.withoutMethods = cls.withoutMethods := by
  have h := same name
  rw [found] at h
  exact Option.map_eq_some_iff.1 h

end State.SameUse

theorem Call.sameUse (call : Call setting state next) : state.SameUse next := by
  intro other
  cases call with
  | @enter name cls _ _ _ _ found =>
    rw [State.class?_revise]
    split
    · rename_i same
      subst same
      rw [found]; rfl
    · rfl
  | report => rfl

theorem Calls.sameUse (calls : Calls setting state next) : state.SameUse next := by
  induction calls with
  | refl => exact .refl _
  | tail _ call ih => exact ih.trans call.sameUse

/-- A class had the same calls noted, and knew of the same instances, before some calls. -/
theorem Calls.found_before (calls : Calls setting state next)
    (found : next.class? name = some record) :
    ∃ cls, state.class? name = some cls ∧ cls.calls = record.calls ∧
      cls.inhabited = record.inhabited := by
  obtain ⟨cls, found', bare⟩ := (Calls.sameUse calls).symm.found found
  have same_calls : cls.withoutMethods.calls = record.withoutMethods.calls := by rw [bare]
  have same_residents : cls.withoutMethods.inhabited = record.withoutMethods.inhabited := by
    rw [bare]
  exact ⟨cls, found', same_calls, same_residents⟩

/-! ### What a call needs -/

/-- Without bridges and proxies, what implements the method for the class is among the facts. -/
def Setting.Grants (setting : Setting) (name : ClassName) (method : MethodName) : Prop :=
  setting.allow = false → ∀ owner, Implements setting.world.classes name method owner →
    setting.facts (.reached ⟨owner, .publicInstance, method⟩)

namespace State

/-- Without bridges and proxies, the declared methods decide what implements a method. -/
theorem Valid.implements (valid : state.Valid setting) (fair : setting.IsFair)
    (bare : setting.allow = false) (found : state.class? name = some cls)
    (implements_ : Implements state.class? name method owner) :
    Implements setting.world.classes name method owner := by
  have same : Unextended state.class? name method := fun _ _ _ _ record found' =>
    (valid.classes found').hasConcrete_eq (.inl bare) method
  rcases implements_ with implementor | ⟨lacks, head⟩
  · exact .inl (implementor.to_declared valid.follows fair.rooted same)
  · refine .inr ⟨fun owner declared => ?_, ?_⟩
    · exact lacks owner (declared.of_declared valid.follows fair.rooted found same)
    · rw [← valid.defaultOwners_eq found, state.defaultOwners_eq]
      exact head

end State

/-! ### Landing -/

section

variable {cause : Cause} {errors : List Diagnostic}

/-- Landing is a few steps, if code that is called is among the facts. -/
theorem Landing.calls (fair : setting.IsFair) (valid : state.Valid setting)
    (found : state.class? owner = some cls)
    (landing : Landing state name cause key owner cls entry errors)
    (fact : setting.allow = false → entry.isConcrete = true →
      setting.facts (.reached (cls.idOf key))) :
    Calls setting state (state.called owner cls key entry cause errors) := by
  obtain rfl := valid.follows.name_eq found
  have search : ∀ {method}, (∀ other, ¬ Implementor state.class? method cls.name other) →
      state.superImplementor? cls.name method = none :=
    fun lacks => (State.superImplementor?_eq_none valid.follows fair.rooted found).2 lacks
  have report : ∀ {errors}, cls.method? key = some entry →
      Calls setting state (state.called cls.name cls key entry cause errors) := by
    intro errors has
    rw [State.called, ← State.revise_extend]
    exact .tail (.single (.report errors)) (.enter found (.found has fact))
  cases landing with
  | own has => exact .single (.enter found (.found has fact))
  | absent lacks => exact .single (.enter found (.missing lacks))
  | proxy allowed isProxy kind lacks chosen =>
    exact .single (.enter found (.proxy (valid.allow ▸ allowed) isProxy kind lacks chosen))
  | resolved resolved =>
    cases resolved with
    | inherited _ has => exact .single (.enter found (.found has fact))
    | default _ _ _ _ has => exact report has
    | missing lacks =>
      cases has : cls.method? ⟨.publicInstance, _⟩ with
      | some own =>
        rw [has] at report
        exact report rfl
      | none => exact .single (.enter found (.missing has))
    | bridge allowed kind lacks owners =>
      exact .single (.enter found (.bridge (valid.allow ▸ allowed) kind (search lacks) owners))

/-- What resolution finds is among the facts if what implements the method is. -/
theorem Resolved.fact (fair : setting.IsFair) (valid : state.Valid setting)
    (grants : setting.Grants name method) (linked : state.class? name = some record)
    (found : state.class? owner = some cls)
    (resolved : Resolved state name method cause owner cls entry errors)
    (bare : setting.allow = false) (concrete : entry.isConcrete = true) :
    setting.facts (.reached (cls.idOf ⟨.publicInstance, method⟩)) := by
  obtain rfl := valid.follows.name_eq found
  have granted : Implements state.class? name method cls.name →
      setting.facts (.reached (cls.idOf ⟨.publicInstance, method⟩)) :=
    fun implements_ => grants bare _ (valid.implements fair bare linked implements_)
  cases resolved with
  | inherited implementor => exact granted (.inl implementor)
  | default lacks owners =>
    refine granted (.inr ⟨lacks, ?_⟩)
    rw [← state.defaultOwners_eq, owners, List.head?_cons]
  | missing lacks =>
    cases has : cls.method? ⟨.publicInstance, method⟩ with
    | some own =>
      rw [has] at concrete
      have code : cls.hasConcrete method = true := by
        rw [ClassRecord.hasConcrete, has, Option.any_some]
        exact concrete
      exact absurd (.here found code) (lacks.lacks _)
    | none =>
      rw [has] at concrete
      cases concrete
  | bridge allowed =>
    rw [valid.allow, bare] at allowed
    cases allowed

/-- What a call of a public method reaches is among the facts if what implements the method is. -/
theorem Landing.fact (fair : setting.IsFair) (valid : state.Valid setting)
    (grants : setting.Grants name key.name) (linked : state.class? name = some record)
    (found : state.class? owner = some cls)
    (landing : Landing state name cause key owner cls entry errors)
    (space : key.space = .publicInstance) (bare : setting.allow = false)
    (concrete : entry.isConcrete = true) : setting.facts (.reached (cls.idOf key)) := by
  have no_forwarders : state.allowForwarders ≠ true := by
    rw [valid.allow, bare]
    exact Bool.false_ne_true
  cases landing with
  | resolved resolved => exact resolved.fact fair valid grants linked found bare concrete
  | own has =>
    obtain rfl := Option.some.inj (linked.symm.trans found)
    obtain rfl := valid.follows.name_eq linked
    obtain ⟨_, method⟩ := key
    obtain rfl := space
    have code : record.hasConcrete method = true := by
      rw [ClassRecord.hasConcrete, has, Option.any_some]
      exact concrete
    exact grants bare _ (valid.implements fair bare linked (.inl (.here linked code)))
  | absent => cases concrete
  | proxy allowed => exact absurd allowed no_forwarders

/-- A call that is resolved is answered. -/
theorem Resolved.answered (fair : setting.IsFair) (valid : state.Valid setting)
    (linked : state.class? name = some record) (found : state.class? owner = some cls)
    (resolved : Resolved state name method cause owner cls entry errors)
    (calls : Calls setting state
      (state.called owner cls ⟨.publicInstance, method⟩ entry cause errors)) :
    (state.called owner cls ⟨.publicInstance, method⟩ entry cause errors).Answered name method := by
  have reached : (state.called owner cls ⟨.publicInstance, method⟩ entry cause errors).IsReached
      ⟨owner, .publicInstance, method⟩ := State.isReached_revise_withCall
  have owners_eq := Changes.defaultOwners_eq fair valid calls.changes linked method
  generalize after_eq : state.called owner cls ⟨.publicInstance, method⟩ entry cause errors = after
    at calls reached owners_eq ⊢
  cases resolved with
  | inherited implementor => exact Changes.answered_of_implementor calls.changes implementor reached
  | default lacks owners bare =>
    rcases Changes.answered_or_lacks fair valid calls.changes linked lacks with answered | lacks
    · exact answered
    · refine .default lacks (owners_eq.trans owners) ?_ reached
      refine bare.imp (fun bare => (Changes.grows calls.changes).allow.trans bare) ?_
      rintro ⟨interface, found', kind⟩
      obtain ⟨later, found'', growth⟩ := (Changes.grows calls.changes).classes found'
      exact ⟨later, found'', growth.kind_eq.trans kind⟩
  | missing lacks =>
    rcases Changes.answered_or_lacks fair valid calls.changes linked lacks.lacks with
      answered | still
    · exact answered
    · refine .missing still (owners_eq.trans lacks.owners) reached ⟨cause, ?_⟩
      rw [← after_eq]
      exact List.mem_append_right _ List.mem_cons_self
  | @bridge first =>
    let bridge : MethodRecord :=
      { id := ⟨name, .publicInstance, method⟩, forwarder := some (.bridge first) }
    have code :
        (cls.withCall ⟨.publicInstance, method⟩ bridge cause).hasConcrete method = true := by
      unfold ClassRecord.hasConcrete
      rw [ClassRecord.method?_withCall, if_pos rfl]
      rfl
    refine .implemented
      (@Implementor.here _ _ _ (cls.withCall ⟨.publicInstance, method⟩ bridge cause) ?_ code)
      reached
    rw [← after_eq, State.called, State.class?_revise, if_pos rfl]

end

namespace State

/-! ### The operations -/

/-- A resolved call is a few steps, and is answered. -/
theorem calls_resolve (fair : setting.IsFair) (valid : state.Valid setting)
    (grants : setting.Grants name method) (found : state.class? name = some cls)
    (cause : Cause) :
    let resolution := state.resolve name method cause
    let after := resolution.2.addCaller resolution.1 cause
    Calls setting state after ∧ after.Answered name method := by
  intro resolution after
  obtain ⟨owner, record, entry, errors, found', resolved, _, same⟩ :=
    resolved_resolve fair valid found method cause
  have calls := Landing.calls fair valid found' (.resolved resolved)
    (resolved.fact fair valid grants found found')
  have same : after = _ := same
  rw [same]
  exact ⟨calls, resolved.answered fair valid found found' calls⟩

/-- A call of a public method is a few steps, wherever it lands. -/
theorem Lands.calls (fair : setting.IsFair) (valid : state.Valid setting)
    (grants : setting.Grants name method) (linked : state.class? name = some cls) {cause : Cause}
    (lands : state.Lands name ⟨.publicInstance, method⟩ cause next) : Calls setting state next := by
  cases lands with
  | intro found landing =>
    exact landing.calls fair valid found (landing.fact fair valid grants linked found rfl)

/-- A call on instances of exactly a class is dispatched. -/
theorem calls_callExact (fair : setting.IsFair) (valid : state.Valid setting)
    (grants : setting.Grants name method) (found : state.class? name = some cls)
    (kind : setting.allow = true → cls.kind.isOrdinary = true) (cause : Cause) :
    Calls setting state (state.callExact name method cause) ∧
      (state.callExact name method cause).Dispatched name method := by
  have kind : state.allowForwarders = true → cls.kind.isOrdinary = true := valid.allow ▸ kind
  have calls := (lands_callExact fair valid found method kind cause).calls fair valid grants found
  refine ⟨calls, ?_⟩
  unfold Dispatched
  rw [(Changes.grows calls.changes).allow]
  by_cases reflective : (method.isProxy && state.allowForwarders) = true
  · obtain ⟨_, _, _, same⟩ := lands_reflective found reflective cause
    rw [if_pos reflective, same]
    exact isReached_revise_withCall
  · rw [if_neg reflective]
    unfold callExact dispatch
    rw [if_neg reflective]
    exact (calls_resolve fair valid grants found cause).2

/-- A call that has been dispatched before reaches a method that is there. -/
theorem calls_callAgain (fair : setting.IsFair) (valid : state.Valid setting)
    (grants : setting.Grants name method) (found : state.class? name = some cls)
    (kind : setting.allow = true → cls.kind.isOrdinary = true)
    (dispatched : state.Dispatched name method) (cause : Cause) :
    Calls setting state (state.callAgain name method cause) :=
  (lands_callAgain fair valid found (valid.allow ▸ kind) dispatched cause).calls fair valid grants
    found

/-- A call without dynamic dispatch is answered, or reaches a method of the class itself. -/
theorem calls_callDirect (fair : setting.IsFair) (valid : state.Valid setting)
    (found : state.class? name = some cls) (present : cls.isPresent = true)
    (asked : setting.facts (.asked name (.callDirect key))) (cause : Cause) :
    Calls setting state (state.callDirect name key cause) ∧
      (state.callDirect name key cause).Fulfils cls (.callDirect key) := by
  obtain rfl := valid.follows.name_eq found
  simp only [Fulfils]
  by_cases space : key.space = .publicInstance
  · have grants : setting.Grants cls.name key.name := fun _ owner implements_ => by
      refine fair.closed _ (.calledDirect ?_ (valid.follows.classes_eq found) present implements_)
      rw [← space]
      exact asked
    unfold callDirect
    rw [if_pos space, if_pos space]
    exact calls_resolve fair valid grants found cause
  · have fact : ∀ entry, cls.method? key = some entry → setting.allow = false →
        entry.isConcrete = true → setting.facts (.reached (cls.idOf key)) := by
      intro entry has bare concrete
      have declared := ((valid.classes found).entries has).isConcrete_eq (.inl bare)
      rw [concrete] at declared
      obtain ⟨own, declares, concrete⟩ := (Option.any_eq_true ..).1 declared.symm
      exact fair.closed _ (.calledOwn asked (valid.follows.classes_eq found) present space declares
        concrete)
    rw [if_neg space]
    have lands := lands_callDirect fair valid found key cause
    generalize state.callDirect cls.name key cause = after at lands ⊢
    cases lands with
    | intro found' landing =>
      have at_ : ∀ {record}, state.class? cls.name = some record → record = cls :=
        fun h => Option.some.inj (h.symm.trans found)
      cases landing with
      | resolved | proxy => exact absurd rfl space
      | own has =>
        obtain rfl := at_ found'
        exact ⟨Landing.calls fair valid found (.own has (.inl space)) (fact _ has),
          isReached_revise_withCall⟩
      | absent lacks =>
        obtain rfl := at_ found'
        have absent : ∀ {id}, (MethodRecord.absent id).isConcrete ≠ true := nofun
        exact ⟨Landing.calls fair valid found (.absent lacks (.inl space))
          fun _ h => absurd h absent, isReached_revise_withCall⟩

end State

end ClassLinker
