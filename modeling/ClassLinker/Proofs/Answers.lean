import ClassLinker.Proofs.Growth

/-!
# Calls that are answered

A call on instances of exactly a class is `Answered` if its target is reachable, or if there is none
and an error says so. This is no matter of growth alone, for a bridge or proxy may take the place of
the target in the middle of the super classes. But it is reachable itself by then, so the call stays
answered (`Change.answered`). With it, everything that has been done for a task stays done
(`Change.fulfils`).
-/

namespace ClassLinker

variable {setting : Setting} {state next : State}
variable {name other owner : ClassName} {cls record : ClassRecord}
variable {key : MethodKey} {entry : MethodRecord} {method : MethodName} {task : Task}

namespace State

/-- The method is there and reachable. -/
def IsReached (state : State) (method : MethodId) : Prop :=
  ∃ entry, state.method? method = some entry ∧ entry.isReached = true

theorem isReached_iff {id : MethodId} :
    state.IsReached id ↔ ∃ cls, state.class? id.owner = some cls ∧
      ∃ entry, cls.method? id.key = some entry ∧ entry.isReached = true := by
  unfold IsReached method?
  constructor
  · rintro ⟨entry, found, reached⟩
    obtain ⟨cls, found, has⟩ := Option.bind_eq_some_iff.1 found
    exact ⟨cls, found, entry, has, reached⟩
  · rintro ⟨cls, found, entry, has, reached⟩
    exact ⟨entry, Option.bind_eq_some_iff.2 ⟨cls, found, has⟩, reached⟩

/-- A method that is called becomes reachable. -/
theorem isReached_revise_withCall {cause : Cause} {tasks : List Task} {errors : List Diagnostic} :
    (state.revise name (cls.withCall key entry cause) tasks errors).IsReached
      ⟨name, key.space, key.name⟩ := by
  have found : (state.revise name (cls.withCall key entry cause) tasks errors).class? name =
      some (cls.withCall key entry cause) := by rw [class?_revise, if_pos rfl]
  have has : (cls.withCall key entry cause).method? key = some (entry.calledBy cause) := by
    rw [ClassRecord.method?_withCall, if_pos rfl]
  exact isReached_iff.2 ⟨_, found, _, has, rfl⟩

theorem Grows.isReached (grows : state.Grows next) {id : MethodId} (reached : state.IsReached id) :
    next.IsReached id := by
  obtain ⟨cls, found, entry, has, reached⟩ := isReached_iff.1 reached
  obtain ⟨record, found', growth⟩ := grows.classes found
  obtain ⟨later, has', keeps, _⟩ := growth.methods has
  exact isReached_iff.2 ⟨record, found', later, has', keeps reached⟩

/-- The call on instances of exactly the class has reached what implements the method, or an error
says that nothing does. -/
inductive Answered (state : State) (name : ClassName) (method : MethodName) : Prop
  | implemented {owner : ClassName} (implementor : Implementor state.class? method name owner)
      (reached : state.IsReached ⟨owner, .publicInstance, method⟩)
  /-- Where no bridge can be added, the default method itself is called. -/
  | default {first : ClassName} {others : List ClassName}
      (lacks : ∀ owner, ¬ Implementor state.class? method name owner)
      (owners : state.defaultOwners name method = first :: others)
      (bare : state.allowForwarders = false ∨
        ∃ cls, state.class? name = some cls ∧ cls.kind = .interface)
      (reached : state.IsReached ⟨first, .publicInstance, method⟩)
  | missing (lacks : ∀ owner, ¬ Implementor state.class? method name owner)
      (owners : state.defaultOwners name method = [])
      (reached : state.IsReached ⟨name, .publicInstance, method⟩)
      (error : ∃ cause, .missingMethod ⟨name, .publicInstance, method⟩ cause ∈ state.errors)

/-- The call of a method, reflective or not, on instances of exactly the class has its target. -/
def Dispatched (state : State) (name : ClassName) (method : MethodName) : Prop :=
  if method.isProxy && state.allowForwarders then
    state.IsReached ⟨name, .publicInstance, method⟩
  else state.Answered name method

end State

/-- A class gets code only for methods that are called. -/
theorem Change.reached_of_code (change : Change setting state next)
    (found : state.class? name = some cls) (lacks : cls.hasConcrete method = false)
    (found' : next.class? name = some record) (has : record.hasConcrete method = true) :
    next.IsReached ⟨name, .publicInstance, method⟩ := by
  rcases change.class_cases found' with
    same | ⟨unlinked, _⟩ | ⟨before, tasks, errors, at_, update, rfl⟩
  · obtain rfl := Option.some.inj (found.symm.trans same)
    rw [lacks] at has; cases has
  · rw [unlinked] at found; cases found
  · obtain rfl := Option.some.inj (found.symm.trans at_)
    cases update with
    | use | creator | instances | inhabit | note =>
      have has : cls.hasConcrete method = true := has
      rw [lacks] at has; cases has
    | @call cause key entry errors enters =>
      unfold ClassRecord.hasConcrete at lacks has
      rw [ClassRecord.method?_withCall] at has
      split at has
      · rename_i same
        subst same
        exact State.isReached_revise_withCall
      · rw [lacks] at has; cases has

/-- What implements a method stays, unless something reachable takes its place. -/
theorem Change.implementor (change : Change setting state next)
    (implementor : Implementor state.class? method name owner) :
    ∃ later, Implementor next.class? method name later ∧
      (later = owner ∨ next.IsReached ⟨later, .publicInstance, method⟩) := by
  induction implementor with
  | here found has =>
    obtain ⟨record, found', growth⟩ := change.grows.classes found
    exact ⟨_, .here found' (growth.hasConcrete has), .inl rfl⟩
  | above found lacks extends_ _ ih =>
    obtain ⟨record, found', growth⟩ := change.grows.classes found
    -- A bridge may have been added right here, below what has implemented the method before.
    cases has : record.hasConcrete method with
    | true => exact ⟨_, .here found' has, .inr (change.reached_of_code found lacks found' has)⟩
    | false =>
      obtain ⟨later, up, h⟩ := ih
      exact ⟨later, .above found' has (growth.superClass_eq.trans extends_) up, h⟩

/-- An implementation where there has been none is reachable. -/
theorem Change.reached_of_implementor (fair : setting.IsFair) (valid : state.Valid setting)
    (change : Change setting state next) (found : state.class? name = some cls)
    (lacks : ∀ owner, ¬ Implementor state.class? method name owner)
    (implementor : Implementor next.class? method name owner) :
    next.IsReached ⟨owner, .publicInstance, method⟩ := by
  have no_code : ∀ {name cls}, state.class? name = some cls →
      (∀ owner, ¬ Implementor state.class? method name owner) →
        cls.hasConcrete method = false := by
    intro name cls found lacks
    by_contra has
    exact lacks _ (.here found (by simpa using has))
  induction implementor generalizing cls with
  | here found' has => exact change.reached_of_code found (no_code found lacks) found' has
  | above found' _ extends_ _ ih =>
    obtain ⟨record, found'', growth⟩ := change.grows.classes found
    obtain rfl := Option.some.inj (found'.symm.trans found'')
    have extends_ : cls.superClass = some _ := growth.superClass_eq.symm.trans extends_
    obtain ⟨parent, above⟩ :=
      valid.follows.ancestor found (valid.follows.superClass_mem fair.rooted found extends_)
    exact ih above fun owner up => lacks owner (.above found (no_code found lacks) extends_ up)

/-- The default methods of a linked class stay the same. -/
theorem Change.defaultOwners_eq (fair : setting.IsFair) (valid : state.Valid setting)
    (change : Change setting state next) (found : state.class? name = some cls)
    (method : MethodName) : next.defaultOwners name method = state.defaultOwners name method := by
  obtain ⟨record, found', _⟩ := change.grows.classes found
  rw [valid.defaultOwners_eq found, (change.valid fair valid).defaultOwners_eq found']

/-- Where nothing implements a method, a step leaves it so, or answers calls of it. -/
theorem Change.answered_or_lacks (fair : setting.IsFair) (valid : state.Valid setting)
    (change : Change setting state next) (found : state.class? name = some cls)
    (lacks : ∀ owner, ¬ Implementor state.class? method name owner) :
    next.Answered name method ∨ ∀ owner, ¬ Implementor next.class? method name owner := by
  by_cases h : ∃ owner, Implementor next.class? method name owner
  · obtain ⟨owner, implementor⟩ := h
    exact .inl (.implemented implementor
      (change.reached_of_implementor fair valid found lacks implementor))
  · exact .inr fun owner implementor => h ⟨owner, implementor⟩

/-- A call that is answered stays so. -/
theorem Change.answered (fair : setting.IsFair) (valid : state.Valid setting)
    (change : Change setting state next) (found : state.class? name = some cls)
    (answered : state.Answered name method) : next.Answered name method := by
  have grows := change.grows
  cases answered with
  | implemented implementor reached =>
    obtain ⟨later, implementor', h⟩ := change.implementor implementor
    refine .implemented implementor' ?_
    rcases h with rfl | h
    · exact grows.isReached reached
    · exact h
  | default lacks owners bare reached =>
    rcases change.answered_or_lacks fair valid found lacks with answered | lacks
    · exact answered
    · refine .default lacks ((change.defaultOwners_eq fair valid found method).trans owners) ?_
        (grows.isReached reached)
      refine bare.imp (fun h => grows.allow.trans h) ?_
      rintro ⟨linked, found', kind⟩
      obtain ⟨record, found'', growth⟩ := grows.classes found'
      exact ⟨record, found'', growth.kind_eq.trans kind⟩
  | missing lacks owners reached error =>
    rcases change.answered_or_lacks fair valid found lacks with answered | lacks
    · exact answered
    · refine .missing lacks ((change.defaultOwners_eq fair valid found method).trans owners)
        (grows.isReached reached) ?_
      obtain ⟨cause, mem⟩ := error
      exact ⟨cause, grows.errors.subset mem⟩

theorem Change.dispatched (fair : setting.IsFair) (valid : state.Valid setting)
    (change : Change setting state next) (found : state.class? name = some cls)
    (dispatched : state.Dispatched name method) : next.Dispatched name method := by
  unfold State.Dispatched at dispatched ⊢
  rw [change.grows.allow]
  split at dispatched
  · rename_i reflective
    rw [if_pos reflective]
    exact change.grows.isReached dispatched
  · rename_i direct
    rw [if_neg direct]
    exact change.answered fair valid found dispatched

/-! ### Tasks that are done -/

namespace State

/-- What a task was to do with a class that exists has been done. -/
def Fulfils (state : State) (cls : ClassRecord) : Demand → Prop
  | .use .instances => cls.kind.isInstantiable = true → cls.uses.instances = true
  | .use .module => cls.uses.module = true ∨ cls.kind.isModule = false ∧ state.errors ≠ []
  | .use use => cls.uses.contains use = true
  | .call method => cls.kind.isJS = false → ∃ cause, (method, cause) ∈ cls.calls
  | .callDirect key =>
    if key.space = .publicInstance then state.Answered cls.name key.name
    else state.IsReached (cls.idOf key)

/-- The class is linked, and the demand is fulfilled unless the class does not exist. -/
def Meets (state : State) (name : ClassName) (demand : Demand) : Prop :=
  ∃ cls, state.class? name = some cls ∧ (cls.isPresent = true → state.Fulfils cls demand)

/-- The class of a task exists, unless that is not asked for or there are errors. -/
def Spares (state : State) (cls : ClassRecord) (task : Task) : Prop :=
  cls.isPresent = true ∨ task.isOptional = true ∨ state.errors ≠ []

theorem Spares.grows {task : Task} (spares : state.Spares cls task) (grows : state.Grows next)
    (growth : cls.Grows record) : next.Spares record task := by
  rcases spares with present | optional | reported
  · exact .inl (growth.isPresent_eq ▸ present)
  · exact .inr (.inl optional)
  · exact .inr (.inr (grows.reported reported))

end State

theorem Change.fulfils (fair : setting.IsFair) (valid : state.Valid setting)
    (change : Change setting state next) (found : state.class? name = some cls)
    (growth : cls.Grows record) {demand : Demand} (fulfils : state.Fulfils cls demand) :
    next.Fulfils record demand := by
  cases demand with
  | use use =>
    cases use with
    | instances =>
      intro kind
      exact growth.created (fulfils (growth.kind_eq ▸ kind))
    | module =>
      rcases fulfils with read | ⟨kind, reported⟩
      · exact .inl (growth.read read)
      · exact .inr ⟨growth.kind_eq ▸ kind, change.grows.reported reported⟩
    | tests | typeData | staticFields | privateFields => exact growth.uses fulfils
  | call method =>
    intro notJS
    obtain ⟨cause, mem⟩ := fulfils (growth.kind_eq ▸ notJS)
    exact ⟨cause, growth.calls.subset mem⟩
  | callDirect key =>
    unfold State.Fulfils at fulfils ⊢
    simp only [ClassRecord.idOf, growth.name_eq] at fulfils ⊢
    split at fulfils
    · rename_i space
      rw [if_pos space]
      obtain rfl := valid.follows.name_eq found
      exact change.answered fair valid found fulfils
    · rename_i space
      rw [if_neg space]
      exact change.grows.isReached fulfils

theorem Change.meets (fair : setting.IsFair) (valid : state.Valid setting)
    (change : Change setting state next) {demand : Demand} (meets : state.Meets name demand) :
    next.Meets name demand := by
  obtain ⟨cls, found, fulfils⟩ := meets
  obtain ⟨record, found', growth⟩ := change.grows.classes found
  refine ⟨record, found', fun present => ?_⟩
  exact change.fulfils fair valid found growth (fulfils (growth.isPresent_eq ▸ present))

/-! ### Any number of steps -/

theorem Changes.implementor (changes : Changes setting state next)
    (implementor : Implementor state.class? method name owner) :
    ∃ later, Implementor next.class? method name later ∧
      (later = owner ∨ next.IsReached ⟨later, .publicInstance, method⟩) := by
  induction changes with
  | refl => exact ⟨owner, implementor, .inl rfl⟩
  | tail _ change ih =>
    obtain ⟨middle, implementor, h⟩ := ih
    obtain ⟨later, implementor', h'⟩ := change.implementor implementor
    refine ⟨later, implementor', ?_⟩
    rcases h' with rfl | h'
    · exact h.imp_right change.grows.isReached
    · exact .inr h'

/-- The call of a method that something implements is answered once that is reachable. -/
theorem Changes.answered_of_implementor (changes : Changes setting state next)
    (implementor : Implementor state.class? method name owner)
    (reached : next.IsReached ⟨owner, .publicInstance, method⟩) : next.Answered name method := by
  obtain ⟨later, implementor', h⟩ := Changes.implementor changes implementor
  refine .implemented implementor' ?_
  rcases h with rfl | h
  · exact reached
  · exact h

section

variable (fair : setting.IsFair) (valid : state.Valid setting)
  (changes : Changes setting state next)

include fair valid changes

theorem Changes.defaultOwners_eq (found : state.class? name = some cls) (method : MethodName) :
    next.defaultOwners name method = state.defaultOwners name method := by
  obtain ⟨record, found', _⟩ := (Changes.grows changes).classes found
  rw [valid.defaultOwners_eq found,
    (Changes.valid fair changes valid).defaultOwners_eq found']

theorem Changes.answered_or_lacks (found : state.class? name = some cls)
    (lacks : ∀ owner, ¬ Implementor state.class? method name owner) :
    next.Answered name method ∨ ∀ owner, ¬ Implementor next.class? method name owner := by
  induction changes with
  | refl => exact .inr lacks
  | tail early change ih =>
    obtain ⟨record, found', _⟩ := Changes.grows early |>.classes found
    have valid := Changes.valid fair early valid
    rcases ih with answered | lacks
    · exact .inl (change.answered fair valid found' answered)
    · exact change.answered_or_lacks fair valid found' lacks

theorem Changes.dispatched (found : state.class? name = some cls)
    (dispatched : state.Dispatched name method) : next.Dispatched name method := by
  induction changes with
  | refl => exact dispatched
  | tail early change ih =>
    obtain ⟨record, found', _⟩ := Changes.grows early |>.classes found
    exact change.dispatched fair (Changes.valid fair early valid) found' ih

theorem Changes.meets {demand : Demand} (meets : state.Meets name demand) :
    next.Meets name demand := by
  induction changes with
  | refl => exact meets
  | tail early change ih => exact change.meets fair (Changes.valid fair early valid) ih

end

end ClassLinker
