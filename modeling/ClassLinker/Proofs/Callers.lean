import ClassLinker.Proofs.Shadowing

/-!
# Where callers are entered

Every call that is noted on a class has been made on the instances of all classes below, and its
caller has been entered somewhere: `State.Credited` tells where. A caller stays entered, for only a
bridge could take the place of a method (`Change.hasCaller`), and a call lands where it is credited
(`Landing.credited`), so all calls are credited in the end (`Turns.credits`).
-/

namespace ClassLinker

variable {setting : Setting} {state next : State}
variable {name other owner : ClassName} {cls record : ClassRecord} {task : Task}
variable {key : MethodKey} {entry : MethodRecord} {method : MethodName} {cause : Cause}

namespace State

/-- The caller is entered in the method. -/
def HasCaller (state : State) (id : MethodId) (cause : Cause) : Prop :=
  ∃ entry, state.method? id = some entry ∧ cause ∈ entry.callers

/-- The caller is entered where the call lands on instances of exactly the class: in the class
itself for reflective calls, in what implements the method, in the default method where no bridge
can be added, in what stands for a missing method, or the class hides inherited code. -/
inductive Credited (state : State) (name : ClassName) (method : MethodName) (cause : Cause) : Prop
  | reflective (reflective : (method.isProxy && state.allowForwarders) = true)
      (owners : state.defaultOwners name method = [])
      (caller : state.HasCaller ⟨name, .publicInstance, method⟩ cause)
  | inherited {owner : ClassName} (direct : (method.isProxy && state.allowForwarders) = false)
      (implementor : Implementor state.class? method name owner)
      (caller : state.HasCaller ⟨owner, .publicInstance, method⟩ cause)
  | default {first : ClassName} {others : List ClassName}
      (bare : state.allowForwarders = false)
      (lacks : ∀ owner, ¬ Implementor state.class? method name owner)
      (owners : state.defaultOwners name method = first :: others)
      (caller : state.HasCaller ⟨first, .publicInstance, method⟩ cause)
  | missing (direct : (method.isProxy && state.allowForwarders) = false)
      (lacks : state.LacksCode name method)
      (caller : state.HasCaller ⟨name, .publicInstance, method⟩ cause)
  | hidden (direct : (method.isProxy && state.allowForwarders) = false)
      (hides : Shadows state.class? state.allowForwarders name method)
      (reached : state.IsReached ⟨name, .publicInstance, method⟩)

end State

section

variable (fair : setting.IsFair) (valid : state.Valid setting)

include fair valid

/-- A caller stays entered, for only a bridge could take the place of the method. -/
theorem Change.hasCaller (change : Change setting state next) {id : MethodId}
    (kept : id.space = .publicInstance → setting.allow = false ∨
      (∃ nearest, Implementor state.class? id.name id.owner nearest) ∨
        state.defaultOwners id.owner id.name = [])
    (caller : state.HasCaller id cause) : next.HasCaller id cause := by
  obtain ⟨owner, space, method⟩ := id
  obtain ⟨entry, at_, mem⟩ := caller
  obtain ⟨cls, found, has⟩ := Option.bind_eq_some_iff.1 at_
  change cls.method? ⟨space, method⟩ = some entry at has
  obtain ⟨record, found', growth⟩ := change.grows.classes found
  obtain ⟨later, has', _⟩ := growth.methods has
  refine ⟨later, Option.bind_eq_some_iff.2 ⟨record, found', has'⟩, ?_⟩
  have unchanged : record.method? ⟨space, method⟩ = cls.method? ⟨space, method⟩ →
      cause ∈ later.callers := by
    intro same
    rw [same, has] at has'
    obtain rfl := Option.some.inj has'
    exact mem
  rcases change.class_cases found' with same | ⟨unlinked, _⟩ | ⟨before, _, _, at_, update, _⟩
  · obtain rfl := Option.some.inj (found.symm.trans same)
    exact unchanged rfl
  · rw [unlinked] at found; cases found
  · obtain rfl := Option.some.inj (found.symm.trans at_)
    obtain rfl := valid.follows.name_eq found
    cases update with
    | use | creator | instances | inhabit | note => exact unchanged rfl
    | @call caller called new errors enters =>
      by_cases same : called = ⟨space, method⟩
      · subst same
        rw [ClassRecord.method?_withCall, if_pos rfl] at has'
        obtain rfl := Option.some.inj has'
        cases enters with
        | found entered =>
          obtain rfl := Option.some.inj (has.symm.trans entered)
          exact mem_recordOnce.2 (.inl mem)
        | missing none | proxy _ _ _ none => cases none.symm.trans has
        | bridge allowed _ lacks owners =>
          rcases kept rfl with bare | ⟨nearest, implementor⟩ | empty
          · rw [allowed] at bare; cases bare
          · exact absurd implementor
              ((State.superImplementor?_eq_none valid.follows fair.rooted found).1 lacks nearest)
          · rw [owners] at empty; cases empty
      · exact unchanged (by rw [ClassRecord.method?_withCall, if_neg same])

/-- A caller that is entered where a call lands stays entered there. -/
theorem Change.credited (change : Change setting state next) (found : state.class? name = some cls)
    (credited : state.Credited name method cause) : next.Credited name method cause := by
  have allow : next.allowForwarders = state.allowForwarders := change.grows.allow
  have owners_eq := change.defaultOwners_eq fair valid found method
  have to_setting : (method.isProxy && state.allowForwarders) = false →
      (method.isProxy && setting.allow) = false := fun direct => valid.allow ▸ direct
  cases credited with
  | reflective reflective owners caller =>
    exact .reflective (allow ▸ reflective) (owners_eq.trans owners)
      (change.hasCaller fair valid (fun _ => .inr (.inr owners)) caller)
  | @inherited owner direct implementor caller =>
    obtain ⟨record, at_, has⟩ := implementor.has_code
    exact .inherited (allow ▸ direct)
      (change.keepsImplementor fair valid (to_setting direct) implementor)
      (change.hasCaller fair valid (fun _ => .inr (.inl ⟨owner, .here at_ has⟩)) caller)
  | default bare lacks owners caller =>
    have none : setting.allow = false := valid.allow ▸ bare
    have direct : (method.isProxy && setting.allow) = false := by rw [none, Bool.and_false]
    exact .default (allow.trans bare)
      (change.keepsLacking fair valid direct found (.inl none) lacks)
      (owners_eq.trans owners) (change.hasCaller fair valid (fun _ => .inl none) caller)
  | missing direct lacks caller =>
    exact .missing (allow ▸ direct) (change.lacksCode fair valid (to_setting direct) found lacks)
      (change.hasCaller fair valid (fun _ => .inr (.inr lacks.owners)) caller)
  | hidden direct hides reached =>
    exact .hidden (allow ▸ direct) (change.shadows fair valid (to_setting direct) hides)
      (change.grows.isReached reached)

theorem Changes.credited (changes : Changes setting state next)
    (found : state.class? name = some cls) (credited : state.Credited name method cause) :
    next.Credited name method cause := by
  induction changes with
  | refl => exact credited
  | tail early change ih =>
    obtain ⟨record, found', _⟩ := (Changes.grows early).classes found
    exact change.credited fair (Changes.valid fair early valid) found' ih

end

/-- A call that is not reflective has its caller entered where it lands. -/
theorem Landing.credited (fair : setting.IsFair) (valid : state.Valid setting)
    (direct : (method.isProxy && state.allowForwarders) = false)
    (linked : state.class? name = some record)
    (kind : state.allowForwarders = true → record.kind.isOrdinary = true)
    (found : state.class? owner = some cls) {errors : List Diagnostic}
    (landing : Landing state name cause ⟨.publicInstance, method⟩ owner cls entry errors)
    (changes : Changes setting state next)
    (called : next.method? ⟨owner, .publicInstance, method⟩ = some (entry.calledBy cause)) :
    next.Credited name method cause := by
  have caller : next.HasCaller ⟨owner, .publicInstance, method⟩ cause :=
    ⟨_, called, mem_recordOnce.2 (.inr rfl)⟩
  have reached : next.IsReached ⟨owner, .publicInstance, method⟩ := ⟨_, called, rfl⟩
  have direct' : (method.isProxy && setting.allow) = false := valid.allow ▸ direct
  have allow : next.allowForwarders = state.allowForwarders := (Changes.grows changes).allow
  have next_direct : (method.isProxy && next.allowForwarders) = false := allow ▸ direct
  have inherited : ∀ {nearest}, Implementor state.class? method name nearest → owner = nearest →
      next.Credited name method cause := fun implementor same =>
    .inherited next_direct (Changes.keepsImplementor fair valid direct' changes implementor)
      (same ▸ caller)
  have missing : state.LacksCode name method → owner = name → next.Credited name method cause :=
    fun lacks same => .missing next_direct
      (Changes.lacksCode fair valid direct' changes linked lacks) (same ▸ caller)
  cases landing with
  | absent _ unsearched =>
    rcases unsearched with space | reflective
    · exact absurd rfl space
    · exact absurd (direct.symm.trans reflective) Bool.false_ne_true
  | proxy allowed isProxy =>
    rw [isProxy, allowed] at direct
    cases direct
  | resolved resolved =>
    cases resolved with
    | inherited implementor => exact inherited implementor rfl
    | default lacks owners bare =>
      have bare := State.bare_of_ordinary linked kind bare
      have none : setting.allow = false := valid.allow ▸ bare
      exact .default (allow.trans bare)
        (Changes.keepsLacking fair valid direct' changes linked none lacks)
        ((Changes.defaultOwners_eq fair valid changes linked method).trans owners) caller
    | missing lacks => exact missing lacks rfl
    | bridge =>
      obtain ⟨after, found', has⟩ := Option.bind_eq_some_iff.1 called
      have has : after.method? ⟨.publicInstance, method⟩ = some _ := has
      have code : after.hasConcrete method = true := by
        rw [ClassRecord.hasConcrete, has, Option.any_some]
        rfl
      exact .inherited next_direct (.here found' code) caller
  | own has unsearched =>
    have answered : state.Answered name method := by
      rcases unsearched with space | reflective | ⟨_, dispatched⟩
      · exact absurd rfl space
      · exact absurd (direct.symm.trans reflective) Bool.false_ne_true
      · unfold State.Dispatched at dispatched
        rwa [direct, if_neg Bool.false_ne_true] at dispatched
    cases concrete : entry.isConcrete with
    | true =>
      have code : cls.hasConcrete method = true := by
        rw [ClassRecord.hasConcrete, has, Option.any_some, concrete]
      exact inherited (.here found code) rfl
    | false =>
      rcases answered.inheritsCode linked kind with inherits | ⟨lacks, _⟩
      · exact .hidden next_direct (Changes.shadows fair valid direct' changes
          ⟨⟨cls, entry, found, has, concrete⟩, inherits⟩) reached
      · exact missing lacks rfl

/-- A call that lands has its caller entered there. -/
theorem State.Lands.credited (fair : setting.IsFair) (valid : state.Valid setting)
    (direct : (method.isProxy && state.allowForwarders) = false)
    (linked : state.class? name = some cls)
    (kind : state.allowForwarders = true → cls.kind.isOrdinary = true)
    (lands : state.Lands name ⟨.publicInstance, method⟩ cause next)
    (changes : Changes setting state next) : next.Credited name method cause := by
  cases lands with
  | intro found landing =>
    exact landing.credited fair valid direct linked kind found changes
      (by rw [State.method?_called found, if_pos ⟨rfl, rfl⟩])

/-- A reflective call enters its caller in the class itself. -/
theorem State.Credited.of_called {errors : List Diagnostic} (fair : setting.IsFair)
    (valid : state.Valid setting)
    (reflective : (method.isProxy && state.allowForwarders) = true)
    (owners : state.defaultOwners name method = []) (found : state.class? name = some cls)
    (changes : Changes setting state
      (state.called name cls ⟨.publicInstance, method⟩ entry cause errors)) :
    (state.called name cls ⟨.publicInstance, method⟩ entry cause errors).Credited name method
      cause := by
  refine .reflective reflective
    ((Changes.defaultOwners_eq fair valid changes found method).trans owners) ?_
  exact ⟨entry.calledBy cause, by rw [State.method?_called found, if_pos ⟨rfl, rfl⟩],
    mem_recordOnce.2 (.inr rfl)⟩

/-- A call that has been made has its caller entered, unless it is reflective and some class
declares the method. -/
theorem State.Made.credited (fair : setting.IsFair) (valid : state.Valid setting)
    (undeclared : (method.isProxy && setting.allow) = true →
      ∀ name, defaultOwnersIn setting.world.classes name method = [])
    (made : State.Made setting state next name (method, cause)) :
    next.Credited name method cause := by
  obtain ⟨⟨middle, cls, early, found, kind, late⟩, grants⟩ := made
  have valid := Changes.valid fair early valid
  have kind : middle.allowForwarders = true → cls.kind.isOrdinary = true := valid.allow ▸ kind
  have owners : (method.isProxy && middle.allowForwarders) = true →
      middle.defaultOwners name method = [] := fun reflective =>
    (valid.defaultOwners_eq found method).trans (undeclared (valid.allow ▸ reflective) _)
  -- Whichever way the call is made, its caller is entered, and stays entered from then on.
  obtain ⟨called, changes, late, credited⟩ : ∃ called, Changes setting middle called ∧
      Changes setting called next ∧ called.Credited name method cause := by
    rcases late with late | ⟨dispatched, late⟩
    · have changes := (calls_callExact fair valid grants found (valid.allow ▸ kind) cause).1.changes
      refine ⟨_, changes, late, ?_⟩
      cases reflective : method.isProxy && middle.allowForwarders with
      | false =>
        exact (lands_callExact fair valid found method kind cause).credited fair valid reflective
          found kind changes
      | true =>
        obtain ⟨_, _, _, same⟩ := lands_reflective found reflective cause
        have same : middle.callExact name method cause = _ := same
        simp only [same] at changes ⊢
        exact .of_called fair valid reflective (owners reflective) found changes
    · have changes :=
        (calls_callAgain fair valid grants found (valid.allow ▸ kind) dispatched cause).changes
      refine ⟨_, changes, late, ?_⟩
      cases reflective : method.isProxy && middle.allowForwarders with
      | false =>
        exact (lands_callAgain fair valid found kind dispatched cause).credited fair valid
          reflective found kind changes
      | true =>
        obtain ⟨entry, has, _⟩ : middle.IsReached ⟨name, .publicInstance, method⟩ := by
          unfold Dispatched at dispatched
          rwa [if_pos reflective] at dispatched
        rw [method?, found, Option.bind_some] at has
        have same : middle.callAgain name method cause = _ := callAgain_of_own found has cause
        simp only [same] at changes ⊢
        exact .of_called fair valid reflective (owners reflective) found changes
  obtain ⟨record, found', _⟩ := (Changes.grows changes).classes found
  exact Changes.credited fair (Changes.valid fair changes valid) late found' credited

/-! ### Runs -/

/-- The callers of the method that are noted are entered where their calls land. -/
def State.Credits (state : State) (method : MethodName) : Prop :=
  ∀ {upper cls receiver cause}, state.class? upper = some cls → receiver ∈ cls.inhabited →
    (method, cause) ∈ cls.calls → state.Credited receiver method cause

theorem Turn.credits (fair : setting.IsFair) (valid : state.Valid setting)
    (undeclared : (method.isProxy && setting.allow) = true →
      ∀ name, defaultOwnersIn setting.world.classes name method = [])
    (turn : Turn setting state next) (credits : state.Credits method) : next.Credits method := by
  intro upper record receiver cause found resident noted
  rcases turn.cases_perform fair with advances | ⟨task, rest, order, work, rfl⟩
  · rcases advances.links found with before | ⟨_, fresh⟩
    · obtain ⟨below, hb, _⟩ := valid.residents before resident
      exact Changes.credited fair valid advances.changes hb (credits before resident noted)
    · rw [← fresh] at noted; cases noted
  · have takes := order.takes work
    have does := State.performs fair takes.valid takes.consistent takes.justified
    rcases does.made found resident noted with ⟨cls, before, resident, noted⟩ | made
    · obtain ⟨below, hb, _⟩ := takes.valid.residents before resident
      have credited : State.Credited { state with work := rest } receiver method cause := by
        cases credits before resident noted with
        | reflective reflective owners caller => exact .reflective reflective owners caller
        | inherited direct implementor caller => exact .inherited direct implementor caller
        | default bare lacks owners caller => exact .default bare lacks owners caller
        | missing direct lacks caller => exact .missing direct ⟨lacks.lacks, lacks.owners⟩ caller
        | hidden direct hides reached => exact .hidden direct hides reached
      exact Changes.credited fair takes.valid does.changes hb credited
    · exact made.credited fair takes.valid undeclared

theorem Turns.credits (fair : setting.IsFair) (valid : state.Valid setting)
    (undeclared : (method.isProxy && setting.allow) = true →
      ∀ name, defaultOwnersIn setting.world.classes name method = [])
    (turns : Turns setting state next) (credits : state.Credits method) : next.Credits method := by
  induction turns with
  | refl => exact credits
  | tail early turn ih => exact turn.credits fair (Turns.valid fair early valid) undeclared ih

end ClassLinker
