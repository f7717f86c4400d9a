import ClassLinker.Proofs.Answers

/-!
# Where calls land

A call enters its caller in one method of one class and changes nothing else but the errors. Which
method that is depends on the way in which the call is made:

* `Resolved` tells what resolution can find: inherited code, a default method, nothing, or the
  default method through a bridge that is added;
* `Landing` tells where calls of all kinds land: where resolution leads them, at a method of the
  class itself, or at a proxy that is added.

`State.lands_callExact`, `State.lands_callAgain` and `State.lands_callDirect` are the operations.
`State.lands_noted` and `State.lands_notedAgain` apply the first two to a call that a class above
has noted, and `State.lands_exact` to the call of a proxy.
-/

namespace ClassLinker

variable {setting : Setting} {state next : State}
variable {name other owner : ClassName} {cls record : ClassRecord}
variable {key : MethodKey} {entry : MethodRecord} {method : MethodName}

/-- The second of two values inserted for a key counts. -/
theorem insert_insert {α β : Type} [Ord α] [Std.TransOrd α] [Std.LawfulEqOrd α]
    (map : Std.ExtTreeMap α β) (k : α) (first second : β) :
    (map.insert k first).insert k second = map.insert k second := by
  refine Std.ExtTreeMap.ext_getElem? fun {other} => ?_
  simp only [Std.ExtTreeMap.getElem?_insert]
  split <;> rfl

/-- Inserting the value that a key has already changes nothing. -/
theorem insert_eq_self {α β : Type} [Ord α] [Std.TransOrd α] [Std.LawfulEqOrd α]
    {map : Std.ExtTreeMap α β} {k : α} {value : β} (at_ : map[k]? = some value) :
    map.insert k value = map := by
  refine Std.ExtTreeMap.ext_getElem? fun {other} => ?_
  rw [Std.ExtTreeMap.getElem?_insert]
  split
  · rename_i is_k
    rw [← Std.compare_eq_iff_eq.1 is_k, at_]
  · rfl

namespace State

/-! ### Entering a caller -/

theorem addCaller_eq {id : MethodId} (found : state.class? id.owner = some cls)
    (has : cls.method? id.key = some entry) (cause : Cause) :
    state.addCaller id cause =
      state.revise id.owner (cls.withCall id.key entry cause) (cls.callTasks entry) [] := by
  unfold addCaller
  simp only [found, has]
  unfold ClassRecord.callTasks
  split <;> simp [revise, addTasks, setClass, setStatus, ClassRecord.withCall,
    MethodRecord.calledBy]

theorem extend_nil (state : State) : state.extend [] [] = state := by
  simp [extend]

theorem report_eq (state : State) (error : Diagnostic) :
    state.report error = state.extend [] [error] := by
  simp [report, extend]

theorem revise_extend {tasks : List Task} (errors : List Diagnostic) :
    (state.extend [] errors).revise name record tasks [] =
      state.revise name record tasks errors := by
  simp [extend, revise, setClass, setStatus]

/-- Calling a method that has just been put into a class. -/
theorem addCaller_putMethod (new : MethodRecord) (cause : Cause) :
    (state.setClass new.id.owner (cls.putMethod new)).addCaller new.id cause =
      state.revise new.id.owner (cls.withCall new.id.key new cause) (cls.callTasks new) [] := by
  have found : (state.setClass new.id.owner (cls.putMethod new)).class? new.id.owner =
      some (cls.putMethod new) := by rw [class?_setClass, if_pos rfl]
  have has : (cls.putMethod new).method? new.id.key = some new := by
    rw [ClassRecord.method?_putMethod, if_pos rfl]
  have entered : (cls.putMethod new).withCall new.id.key new cause =
      cls.withCall new.id.key new cause := by
    simp only [ClassRecord.withCall, ClassRecord.putMethod, insert_insert]
  rw [addCaller_eq found has, entered]
  simp only [revise, setClass, setStatus, insert_insert]
  rfl

theorem addCaller_addForwarder (found : state.class? name = some cls) (forwarder : Forwarder)
    (cause : Cause) :
    (state.addForwarder name method forwarder).2.addCaller ⟨name, .publicInstance, method⟩ cause =
      state.revise name
        (cls.withCall ⟨.publicInstance, method⟩
          { id := ⟨name, .publicInstance, method⟩, forwarder := some forwarder } cause)
        (cls.callTasks
          { id := ⟨name, .publicInstance, method⟩, forwarder := some forwarder }) [] := by
  unfold addForwarder modifyClass
  simp only [found]
  exact addCaller_putMethod
    { id := ⟨name, .publicInstance, method⟩, forwarder := some forwarder } cause

/-- A call of a method that nothing implements enters the caller in what the class has for it, if
only an absent method that is new. -/
theorem addCaller_reportMissing (found : state.class? name = some cls) (cause : Cause) :
    let id : MethodId := ⟨name, key.space, key.name⟩
    let entry := (cls.method? key).getD (.absent id)
    (state.reportMissing id cause).addCaller id cause =
      state.revise name (cls.withCall key entry cause) (cls.callTasks entry)
        [.missingMethod id cause] := by
  intro id entry
  cases has : cls.method? key with
  | some own =>
    have entered : state.reportMissing id cause =
        (state.report (.missingMethod id cause)).setClass name cls := by
      unfold reportMissing modifyClass
      simp only [id, found, MethodId.key, has]
      rfl
    have found' : ((state.report (.missingMethod id cause)).setClass name cls).class? id.owner =
        some cls := by rw [class?_setClass, if_pos rfl]
    have revised : State.addCaller _ id cause = _ := addCaller_eq found' has cause
    simp only [entry, has, Option.getD_some]
    rw [entered, revised, report_eq]
    simp only [revise, setClass, setStatus, insert_insert, id, extend, List.append_nil]
    rfl
  | none =>
    have entered : state.reportMissing id cause =
        (state.report (.missingMethod id cause)).setClass name (cls.putMethod (.absent id)) := by
      unfold reportMissing modifyClass
      simp only [id, found, MethodId.key, has]
      rfl
    simp only [entry, has, Option.getD_none]
    rw [entered, ← revise_extend, ← report_eq]
    exact addCaller_putMethod (.absent id) cause

/-! ### Resolution -/

/-- Neither the class nor anything above it has code for the method. -/
structure LacksCode (state : State) (name : ClassName) (method : MethodName) : Prop where
  lacks : ∀ owner, ¬ Implementor state.class? method name owner
  owners : state.defaultOwners name method = []

end State

/-- What resolving a method for instances of the class leads to: a method of a class, with errors
that are reported. -/
inductive Resolved (state : State) (name : ClassName) (method : MethodName) (cause : Cause) :
    ClassName → ClassRecord → MethodRecord → List Diagnostic → Prop
  | inherited {owner : ClassName} {cls : ClassRecord} {entry : MethodRecord}
      (implementor : Implementor state.class? method name owner)
      (has : cls.method? ⟨.publicInstance, method⟩ = some entry)
      (concrete : entry.isConcrete = true) : Resolved state name method cause owner cls entry []
  /-- Where no bridge can be added, the default method itself is called. -/
  | default {first : ClassName} {others : List ClassName} {cls : ClassRecord}
      {entry : MethodRecord} {errors : List Diagnostic}
      (lacks : ∀ owner, ¬ Implementor state.class? method name owner)
      (owners : state.defaultOwners name method = first :: others)
      (bare : state.allowForwarders = false ∨
        ∃ cls, state.class? name = some cls ∧ cls.kind = .interface)
      (kind : cls.kind = .interface) (has : cls.method? ⟨.publicInstance, method⟩ = some entry)
      (concrete : entry.isConcrete = true)
      (conflicts : errors ⊆ conflictErrors method (first :: others) cause) :
      Resolved state name method cause first cls entry errors
  | missing {cls : ClassRecord} (lacks : state.LacksCode name method) :
      Resolved state name method cause name cls
        ((cls.method? ⟨.publicInstance, method⟩).getD (.absent ⟨name, .publicInstance, method⟩))
        [.missingMethod ⟨name, .publicInstance, method⟩ cause]
  | bridge {first : ClassName} {others : List ClassName} {cls : ClassRecord}
      (allowed : state.allowForwarders = true) (kind : cls.kind ≠ .interface)
      (lacks : ∀ owner, ¬ Implementor state.class? method name owner)
      (owners : state.defaultOwners name method = first :: others) :
      Resolved state name method cause name cls
        { id := ⟨name, .publicInstance, method⟩, forwarder := some (.bridge first) }
        (conflictErrors method (first :: others) cause)

/-- Where a call on the class lands: at a method of a class, with errors that are reported. -/
inductive Landing (state : State) (name : ClassName) (cause : Cause) :
    MethodKey → ClassName → ClassRecord → MethodRecord → List Diagnostic → Prop
  | resolved {method : MethodName} {owner : ClassName} {cls : ClassRecord} {entry : MethodRecord}
      {errors : List Diagnostic}
      (resolved : Resolved state name method cause owner cls entry errors) :
      Landing state name cause ⟨.publicInstance, method⟩ owner cls entry errors
  /-- A method of the class itself is called if it is not public, or for a reflective call, or if
  the call has been dispatched before. -/
  | own {key : MethodKey} {cls : ClassRecord} {entry : MethodRecord}
      (has : cls.method? key = some entry)
      (unsearched : key.space ≠ .publicInstance ∨
        (key.name.isProxy && state.allowForwarders) = true ∨
          (state.allowForwarders = true → cls.kind.isOrdinary = true) ∧
            state.Dispatched name key.name) :
      Landing state name cause key name cls entry []
  | absent {key : MethodKey} {cls : ClassRecord} (lacks : cls.method? key = none)
      (unsearched : key.space ≠ .publicInstance ∨
        (key.name.isProxy && state.allowForwarders) = true) :
      Landing state name cause key name cls (.absent ⟨name, key.space, key.name⟩)
        [.missingMethod ⟨name, key.space, key.name⟩ cause]
  | proxy {method target : MethodName} {cls : ClassRecord}
      (allowed : state.allowForwarders = true) (isProxy : method.isProxy = true)
      (kind : cls.kind.isOrdinary = true) (lacks : cls.method? ⟨.publicInstance, method⟩ = none)
      (chosen : state.proxyTarget? name method = some target) :
      Landing state name cause ⟨.publicInstance, method⟩ name cls
        { id := ⟨name, .publicInstance, method⟩, forwarder := some (.proxy target) } []

namespace State

/-- The state after the caller has been entered in the method of the class. -/
def called (state : State) (owner : ClassName) (cls : ClassRecord) (key : MethodKey)
    (entry : MethodRecord) (cause : Cause) (errors : List Diagnostic) : State :=
  state.revise owner (cls.withCall key entry cause) (cls.callTasks entry) errors

/-- Only the method that is called is another one afterwards. -/
theorem method?_called (found : state.class? owner = some cls) (cause : Cause)
    (errors : List Diagnostic) (id : MethodId) :
    (state.called owner cls key entry cause errors).method? id =
      if id.owner = owner ∧ id.key = key then some (entry.calledBy cause)
      else state.method? id := by
  unfold method? called
  rw [class?_revise]
  by_cases same : owner = id.owner
  · rw [if_pos same, ← same, found, Option.bind_some, Option.bind_some,
      ClassRecord.method?_withCall]
    by_cases at_ : key = id.key
    · rw [if_pos at_, if_pos ⟨rfl, at_.symm⟩]
    · rw [if_neg at_, if_neg fun h => at_ h.2.symm]
  · rw [if_neg same, if_neg fun h => same h.1.symm]

/-- A call on the class leads to the next state. -/
inductive Lands (state : State) (name : ClassName) (key : MethodKey) (cause : Cause) :
    State → Prop
  | intro {owner : ClassName} {cls : ClassRecord} {entry : MethodRecord}
      {errors : List Diagnostic} (found : state.class? owner = some cls)
      (landing : Landing state name cause key owner cls entry errors) :
      Lands state name key cause (state.called owner cls key entry cause errors)

/-- The state with an error if there are several default methods. -/
theorem reportConflict_eq (state : State) (method : MethodName) (first : ClassName)
    (others : List ClassName) (cause : Cause) :
    (if others.isEmpty then state
      else state.report (.conflictingDefaults
        ((first :: others).map fun owner => ⟨owner, .publicInstance, method⟩) cause)) =
      state.extend [] (conflictErrors method (first :: others) cause) := by
  cases others with
  | nil => simp [conflictErrors, extend]
  | cons => simp [conflictErrors, report_eq]

theorem resolve_eq (found : state.class? name = some cls) {first : ClassName}
    {others : List ClassName} (inherited : state.superImplementor? name method = none)
    (owners : state.defaultOwners name method = first :: others) (cause : Cause) :
    state.resolve name method cause =
      if cls.kind = .interface || !state.allowForwarders then
        (⟨first, .publicInstance, method⟩,
          state.extend [] (conflictErrors method (first :: others) cause))
      else
        (state.extend [] (conflictErrors method (first :: others) cause)).addForwarder name
          method (.bridge first) := by
  unfold resolve
  simp only [inherited, owners, reportConflict_eq]
  show (if ((state.class? name).any fun cls => cls.kind = .interface) ||
    !state.allowForwarders then _ else _) = _
  rw [found]
  rfl

section

variable (fair : setting.IsFair) (valid : state.Valid setting)
  (found : state.class? name = some cls)

include fair valid found

/-- A call whose target is what resolution gives. -/
theorem resolved_resolve (method : MethodName) (cause : Cause) :
    let resolution := state.resolve name method cause
    ∃ owner record entry errors, state.class? owner = some record ∧
      Resolved state name method cause owner record entry errors ∧
      resolution.1 = ⟨owner, .publicInstance, method⟩ ∧
      resolution.2.addCaller resolution.1 cause =
        state.called owner record ⟨.publicInstance, method⟩ entry cause errors := by
  intro resolution
  cases inherited : state.superImplementor? name method with
  | some owner =>
    have resolves : resolution = (⟨owner, .publicInstance, method⟩, state) := by
      simp only [resolution, resolve, inherited]
    have implementor := (superImplementor?_eq_some valid.follows fair.rooted found).1 inherited
    obtain ⟨record, found', has⟩ := implementor.has_code
    obtain ⟨entry, has, concrete⟩ := (Option.any_eq_true ..).1 has
    refine ⟨owner, record, entry, [], found', .inherited implementor has concrete, ?_⟩
    rw [resolves]
    exact ⟨rfl, @addCaller_eq state record entry ⟨owner, .publicInstance, method⟩ found' has cause⟩
  | none =>
    have lacks := (superImplementor?_eq_none valid.follows fair.rooted found).1 inherited
    cases owners : state.defaultOwners name method with
    | nil =>
      have resolves : resolution = (⟨name, .publicInstance, method⟩,
          state.reportMissing ⟨name, .publicInstance, method⟩ cause) := by
        simp only [resolution, resolve, inherited, owners]
      refine ⟨name, cls, _, _, found, .missing ⟨lacks, owners⟩, ?_⟩
      rw [resolves]
      exact ⟨rfl, @addCaller_reportMissing state name cls ⟨.publicInstance, method⟩ found cause⟩
    | cons first others =>
      have resolves : resolution = _ := resolve_eq found inherited owners cause
      by_cases bare : (decide (cls.kind = .interface) || !state.allowForwarders) = true
      · rw [if_pos bare] at resolves
        obtain ⟨_, record, found', kind, has⟩ := exists_of_defaultOwners valid.follows found owners
        obtain ⟨entry, has, concrete⟩ := (Option.any_eq_true ..).1 has
        refine ⟨first, record, entry, _, found', .default lacks owners ?_ kind has concrete
          (List.Subset.refl _), ?_⟩
        · rcases Bool.or_eq_true_iff.1 bare with kind | bare
          · exact .inr ⟨cls, found, of_decide_eq_true kind⟩
          · exact .inl (by simpa using bare)
        · rw [resolves, called, ← revise_extend]
          refine ⟨rfl, ?_⟩
          exact @addCaller_eq (state.extend [] _) record entry ⟨first, .publicInstance, method⟩
            found' has cause
      · rw [if_neg bare] at resolves
        obtain ⟨kind, allowed⟩ : cls.kind ≠ .interface ∧ state.allowForwarders = true := by
          simpa using bare
        refine ⟨name, cls, _, _, found, .bridge allowed kind lacks owners, ?_⟩
        rw [resolves, called, ← revise_extend]
        refine ⟨rfl, ?_⟩
        exact @addCaller_addForwarder (state.extend [] _) name cls method found (.bridge first)
          cause

omit fair valid

/-- A reflective call reaches the class itself, and lands there if the class is ordinary. -/
theorem lands_reflective (reflective : (method.isProxy && state.allowForwarders) = true)
    (cause : Cause) :
    ∃ entry errors, ((state.allowForwarders = true → cls.kind.isOrdinary = true) →
        Landing state name cause ⟨.publicInstance, method⟩ name cls entry errors) ∧
      state.callExact name method cause =
        state.called name cls ⟨.publicInstance, method⟩ entry cause errors := by
  obtain ⟨isProxy, allowed⟩ := Bool.and_eq_true_iff.1 reflective
  unfold callExact dispatch
  rw [if_pos reflective]
  cases has : cls.method? ⟨.publicInstance, method⟩ with
  | some entry =>
    have resolves : state.resolveProxy name method cause =
        (⟨name, .publicInstance, method⟩, state) := by
      simp only [resolveProxy, found, MethodId.key, has]
    refine ⟨entry, [], fun _ => .own has (.inr (.inl reflective)), ?_⟩
    rw [resolves]
    exact addCaller_eq found has cause
  | none =>
    cases chosen : state.proxyTarget? name method with
    | some target =>
      have resolves : state.resolveProxy name method cause =
          state.addForwarder name method (.proxy target) := by
        simp only [resolveProxy, found, MethodId.key, has, chosen]
      refine ⟨_, _, fun kind => .proxy allowed isProxy (kind allowed) has chosen, ?_⟩
      rw [resolves]
      exact addCaller_addForwarder found (.proxy target) cause
    | none =>
      have resolves : state.resolveProxy name method cause = (⟨name, .publicInstance, method⟩,
          state.reportMissing ⟨name, .publicInstance, method⟩ cause) := by
        simp only [resolveProxy, found, MethodId.key, has, chosen]
      have enters := @addCaller_reportMissing state name cls ⟨.publicInstance, method⟩ found cause
      simp only [has, Option.getD_none] at enters
      refine ⟨_, _, fun _ => .absent has (.inr reflective), ?_⟩
      rw [resolves]
      exact enters

/-- A call that has been dispatched before reaches the method of the class itself, if there is
one. -/
theorem callAgain_of_own (has : cls.method? ⟨.publicInstance, method⟩ = some entry)
    (cause : Cause) :
    state.callAgain name method cause =
      state.called name cls ⟨.publicInstance, method⟩ entry cause [] := by
  unfold callAgain dispatchedBefore?
  simp only [found, Option.any_some, has, Option.isSome_some, if_true, Option.map_some]
  exact addCaller_eq found has cause

include fair valid

/-- A call on instances of exactly a class. -/
theorem lands_callExact (method : MethodName)
    (kind : state.allowForwarders = true → cls.kind.isOrdinary = true) (cause : Cause) :
    state.Lands name ⟨.publicInstance, method⟩ cause (state.callExact name method cause) := by
  by_cases reflective : (method.isProxy && state.allowForwarders) = true
  · obtain ⟨entry, errors, landing, same⟩ := lands_reflective found reflective cause
    rw [same]
    exact .intro found (landing kind)
  · obtain ⟨owner, record, entry, errors, found', resolved, _, same⟩ :=
      resolved_resolve fair valid found method cause
    unfold callExact dispatch
    rw [if_neg reflective]
    show state.Lands name _ cause
      ((state.resolve name method cause).2.addCaller (state.resolve name method cause).1 cause)
    rw [same]
    exact .intro found' (.resolved resolved)

/-- A call that has been dispatched before lands at a method that is there. -/
theorem lands_callAgain (kind : state.allowForwarders = true → cls.kind.isOrdinary = true)
    (dispatched : state.Dispatched name method) (cause : Cause) :
    state.Lands name ⟨.publicInstance, method⟩ cause (state.callAgain name method cause) := by
  cases has : cls.method? ⟨.publicInstance, method⟩ with
  | some entry =>
    rw [callAgain_of_own found has]
    exact .intro found (.own has (.inr (.inr ⟨kind, dispatched⟩)))
  | none =>
    have unreached : ¬ state.IsReached ⟨name, .publicInstance, method⟩ := by
      rintro ⟨entry, has', _⟩
      rw [method?, found, Option.bind_some] at has'
      exact Option.some_ne_none entry (has'.symm.trans has)
    have answered : state.Answered name method := by
      unfold Dispatched at dispatched
      split at dispatched
      · exact absurd dispatched unreached
      · exact dispatched
    have resolved : ∀ {owner record entry}, state.class? owner = some record →
        record.method? ⟨.publicInstance, method⟩ = some entry →
          Resolved state name method cause owner record entry [] →
            state.Lands name ⟨.publicInstance, method⟩ cause
              (state.addCaller ⟨owner, .publicInstance, method⟩ cause) := by
      intro owner record entry found' has resolved
      have same : state.addCaller ⟨owner, .publicInstance, method⟩ cause = _ :=
        addCaller_eq found' has cause
      rw [same]
      exact .intro found' (.resolved resolved)
    unfold callAgain dispatchedBefore?
    simp only [found, Option.any_some, has, Option.isSome_none, Bool.false_eq_true, if_false]
    cases answered with
    | @implemented owner implementor _ =>
      obtain ⟨record, found', has⟩ := implementor.has_code
      obtain ⟨entry, has, concrete⟩ := (Option.any_eq_true ..).1 has
      rw [(superImplementor?_eq_some valid.follows fair.rooted found).2 implementor]
      exact resolved found' has (.inherited implementor has concrete)
    | @default first others lacks owners bare _ =>
      obtain ⟨_, record, found', kind, has⟩ := exists_of_defaultOwners valid.follows found owners
      obtain ⟨entry, has, concrete⟩ := (Option.any_eq_true ..).1 has
      rw [(superImplementor?_eq_none valid.follows fair.rooted found).2 lacks, owners]
      exact resolved found' has (.default lacks owners bare kind has concrete (by simp))
    | missing _ _ reached => exact absurd reached unreached

/-- A call without dynamic dispatch. -/
theorem lands_callDirect (key : MethodKey) (cause : Cause) :
    state.Lands name key cause (state.callDirect name key cause) := by
  unfold callDirect
  by_cases space : key.space = .publicInstance
  · obtain ⟨owner, record, entry, errors, found', resolved, _, same⟩ :=
      resolved_resolve fair valid found key.name cause
    have key_eq : key = ⟨.publicInstance, key.name⟩ := by rw [← space]
    rw [if_pos space]
    show state.Lands name key cause ((state.resolve name key.name cause).2.addCaller
      (state.resolve name key.name cause).1 cause)
    rw [same, key_eq]
    exact .intro found' (.resolved resolved)
  · rw [if_neg space]
    cases has : cls.method? key with
    | some entry =>
      simp only [found, has]
      have same : state.addCaller ⟨name, key.space, key.name⟩ cause = _ :=
        addCaller_eq found has cause
      rw [same]
      exact .intro found (.own has (.inl space))
    | none =>
      have same := @addCaller_reportMissing state name cls key found cause
      simp only [found, has, Option.getD_none] at same ⊢
      rw [same]
      exact .intro found (.absent has (.inl space))

end

section

variable {task : Task} {upper receiver : ClassName}
  (fair : setting.IsFair) (valid : state.Valid setting)

include fair valid

/-- A call that is noted in a class lands in each class below with instances. -/
theorem lands_noted (found : state.class? upper = some record)
    (resident : receiver ∈ record.inhabited) (method : MethodName) (cause : Cause) :
    state.Lands receiver ⟨.publicInstance, method⟩ cause
      (state.callExact receiver method cause) := by
  obtain ⟨cls, found', ordinary, _⟩ := valid.residents found resident
  exact lands_callExact fair valid found' method (fun _ => ordinary) cause

/-- So it does when another caller makes it again. -/
theorem lands_notedAgain (found : state.class? upper = some record)
    (resident : receiver ∈ record.inhabited) (dispatched : state.Dispatched receiver method)
    (cause : Cause) :
    state.Lands receiver ⟨.publicInstance, method⟩ cause
      (state.callAgain receiver method cause) := by
  obtain ⟨cls, found', ordinary, _⟩ := valid.residents found resident
  exact lands_callAgain fair valid found' (fun _ => ordinary) dispatched cause

/-- A task for a call on instances of exactly a class lands there, for the class is an ordinary
one. -/
theorem lands_exact (found : state.class? task.cls = some cls)
    (justified : setting.Justifies task) (asked : task.action = .callExact method)
    (cause : Cause) :
    state.Lands task.cls ⟨.publicInstance, method⟩ cause
      (state.callExact task.cls method cause) := by
  have ordinary := justified.isOrdinary asked (valid.follows.links found)
  exact lands_callExact fair valid found method (fun _ => ordinary) cause

end

end State

end ClassLinker
