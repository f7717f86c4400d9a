import ClassLinker.Proofs.Effects

/-!
# Methods without code that hide inherited code

A class may declare a method as abstract although it inherits code for it. `Shadows` says so. Which
code a call on the class runs, and whether there is any, changes only when a bridge is added, and a
bridge is added only where there is none: so what implements a method stays the same
(`Change.keepsImplementor`), a class that lacks code goes on lacking it (`Change.lacksCode`), and
what is reachable in spite of being without code either has been reported as missing or shadows
inherited code (`Turns.explains`).
-/

namespace ClassLinker

variable {setting : Setting} {state next : State}
variable {name other owner : ClassName} {cls record : ClassRecord} {task : Task}
variable {key : MethodKey} {entry : MethodRecord} {method : MethodName}

/-- A call on instances of exactly the class finds code: some that the class has or inherits or,
where no bridges can be added, a default method. -/
def InheritsCode (classes : Lookup) (allowForwarders : Bool) (name : ClassName)
    (method : MethodName) : Prop :=
  (∃ owner, Implementor classes method name owner) ∨
    allowForwarders = false ∧ defaultOwnersIn classes name method ≠ []

/-- The class has a method without code where it inherits code for it. -/
def Shadows (classes : Lookup) (allowForwarders : Bool) (name : ClassName) (method : MethodName) :
    Prop :=
  (∃ cls entry, classes name = some cls ∧ cls.method? ⟨.publicInstance, method⟩ = some entry ∧
    entry.isConcrete = false) ∧ InheritsCode classes allowForwarders name method

namespace State

/-- Where the default method itself is called for instances of a class, no bridges can be added. -/
theorem bare_of_ordinary (found : state.class? name = some cls)
    (kind : state.allowForwarders = true → cls.kind.isOrdinary = true)
    (bare : state.allowForwarders = false ∨
      ∃ cls, state.class? name = some cls ∧ cls.kind = .interface) :
    state.allowForwarders = false := by
  rcases bare with bare | ⟨record, found', interface⟩
  · exact bare
  · obtain rfl := Option.some.inj (found.symm.trans found')
    rw [interface] at kind
    simpa [ClassKind.isOrdinary] using kind

/-- A call on instances of a class that has been answered finds code, or has been reported. -/
theorem Answered.inheritsCode (answered : state.Answered name method)
    (found : state.class? name = some cls)
    (kind : state.allowForwarders = true → cls.kind.isOrdinary = true) :
    InheritsCode state.class? state.allowForwarders name method ∨ state.LacksCode name method ∧
      state.IsReached ⟨name, .publicInstance, method⟩ ∧
        ∃ cause, .missingMethod ⟨name, .publicInstance, method⟩ cause ∈ state.errors := by
  cases answered with
  | implemented implementor => exact .inl (.inl ⟨_, implementor⟩)
  | default _ owners bare =>
    exact .inl (.inr ⟨bare_of_ordinary found kind bare,
      by rw [← state.defaultOwners_eq, owners]; simp⟩)
  | missing lacks owners reached error => exact .inr ⟨⟨lacks, owners⟩, reached, error⟩

theorem LacksCode.not_inheritsCode (lacks : state.LacksCode name method) :
    ¬ InheritsCode state.class? state.allowForwarders name method := by
  rintro (⟨owner, implementor⟩ | ⟨_, some_owner⟩)
  · exact lacks.lacks owner implementor
  · rw [← state.defaultOwners_eq] at some_owner
    exact some_owner lacks.owners

end State

/-! ### What stays -/

section

variable (fair : setting.IsFair) (valid : state.Valid setting)

include valid

/-- Apart from proxies, a class gets code only by a bridge, which takes the place of no code. -/
theorem Change.bridge_of_code (change : Change setting state next)
    (direct : (method.isProxy && setting.allow) = false) (found : state.class? name = some cls)
    (lacks : cls.hasConcrete method = false) (found' : next.class? name = some record)
    (has : record.hasConcrete method = true) :
    setting.allow = true ∧ state.superImplementor? name method = none ∧
      state.defaultOwners name method ≠ [] := by
  rcases change.class_cases found' with same | ⟨unlinked, _⟩ | ⟨before, _, _, at_, update, _⟩
  · obtain rfl := Option.some.inj (found.symm.trans same)
    rw [lacks] at has; cases has
  · rw [unlinked] at found; cases found
  · obtain rfl := Option.some.inj (found.symm.trans at_)
    obtain rfl := valid.follows.name_eq found
    cases update with
    | use | creator | instances | inhabit | note =>
      have has : cls.hasConcrete method = true := has
      rw [lacks] at has; cases has
    | @call cause key entry errors enters =>
      unfold ClassRecord.hasConcrete at lacks has
      rw [ClassRecord.method?_withCall] at has
      split at has
      · rename_i same
        subst same
        have has : entry.isConcrete = true := has
        cases enters with
        | found entered =>
          rw [entered, Option.any_some, has] at lacks
          cases lacks
        | missing => cases has
        | bridge allowed _ lacks owners => exact ⟨allowed, lacks, by rw [owners]; simp⟩
        | proxy allowed isProxy =>
          rw [isProxy, allowed] at direct
          cases direct
      · rw [lacks] at has; cases has

include fair

/-- What implements a method, apart from proxies, stays what implements it. -/
theorem Change.keepsImplementor (change : Change setting state next)
    (direct : (method.isProxy && setting.allow) = false)
    (implementor : Implementor state.class? method name owner) :
    Implementor next.class? method name owner := by
  induction implementor with
  | here found has =>
    obtain ⟨record, found', growth⟩ := change.grows.classes found
    exact .here found' (growth.hasConcrete has)
  | @above name owner cls parent found lacks extends_ up ih =>
    obtain ⟨record, found', growth⟩ := change.grows.classes found
    cases has : record.hasConcrete method with
    | true =>
      obtain ⟨_, none, _⟩ := change.bridge_of_code valid direct found lacks found' has
      exact absurd (.above found lacks extends_ up)
        ((State.superImplementor?_eq_none valid.follows fair.rooted found).1 none owner)
    | false => exact .above found' has (growth.superClass_eq.trans extends_) ih

/-- Where nothing implements a method, apart from proxies, nothing comes to implement it unless by
a bridge to a default method. -/
theorem Change.keepsLacking (change : Change setting state next)
    (direct : (method.isProxy && setting.allow) = false) (found : state.class? name = some cls)
    (bare : setting.allow = false ∨ state.defaultOwners name method = [])
    (lacks : ∀ owner, ¬ Implementor state.class? method name owner) (owner : ClassName) :
    ¬ Implementor next.class? method name owner := by
  intro implementor
  have no_code : ∀ {name cls}, state.class? name = some cls →
      (∀ owner, ¬ Implementor state.class? method name owner) → cls.hasConcrete method = false := by
    intro name cls found lacks
    by_contra has
    exact lacks _ (.here found (by simpa using has))
  induction implementor generalizing cls with
  | here found' has =>
    obtain ⟨allowed, _, some_owner⟩ :=
      change.bridge_of_code valid direct found (no_code found lacks) found' has
    rcases bare with bare | none
    · rw [allowed] at bare; cases bare
    · exact some_owner none
  | @above name owner _ parent found' _ extends_ _ ih =>
    obtain ⟨record, found'', growth⟩ := change.grows.classes found
    obtain rfl := Option.some.inj (found'.symm.trans found'')
    have extends_ : cls.superClass = some parent := growth.superClass_eq.symm.trans extends_
    have mem := valid.follows.superClass_mem fair.rooted found extends_
    obtain ⟨parent, above⟩ := valid.follows.ancestor found mem
    refine ih above (bare.imp_right fun none => ?_) fun owner up =>
      lacks owner (.above found (no_code found lacks) extends_ up)
    rw [state.defaultOwners_eq] at none ⊢
    exact defaultOwnersIn_eq_nil_of_mem valid.follows fair.rooted found mem none

theorem Change.lacksCode (change : Change setting state next)
    (direct : (method.isProxy && setting.allow) = false) (found : state.class? name = some cls)
    (lacks : state.LacksCode name method) : next.LacksCode name method :=
  ⟨change.keepsLacking fair valid direct found (.inr lacks.owners) lacks.lacks,
    (change.defaultOwners_eq fair valid found method).trans lacks.owners⟩

theorem Change.inheritsCode (change : Change setting state next)
    (direct : (method.isProxy && setting.allow) = false) (found : state.class? name = some cls)
    (inherits : InheritsCode state.class? state.allowForwarders name method) :
    InheritsCode next.class? next.allowForwarders name method := by
  rcases inherits with ⟨owner, implementor⟩ | ⟨bare, some_owner⟩
  · exact .inl ⟨owner, change.keepsImplementor fair valid direct implementor⟩
  · refine .inr ⟨change.grows.allow.trans bare, ?_⟩
    rw [← State.defaultOwners_eq] at some_owner ⊢
    rwa [change.defaultOwners_eq fair valid found]

/-- The method of a class stays without code where there is no bridge to add. -/
theorem Change.shadows (change : Change setting state next)
    (direct : (method.isProxy && setting.allow) = false)
    (shadows : Shadows state.class? state.allowForwarders name method) :
    Shadows next.class? next.allowForwarders name method := by
  obtain ⟨⟨cls, entry, found, has, vague⟩, inherits⟩ := shadows
  refine ⟨?_, change.inheritsCode fair valid direct found inherits⟩
  obtain ⟨record, found', growth⟩ := change.grows.classes found
  obtain ⟨later, has', _⟩ := growth.methods has
  refine ⟨record, later, found', has', ?_⟩
  by_contra concrete
  have lacks : cls.hasConcrete method = false := by
    rw [ClassRecord.hasConcrete, has, Option.any_some, vague]
  have code : record.hasConcrete method = true := by
    rw [ClassRecord.hasConcrete, has', Option.any_some]
    simpa using concrete
  obtain ⟨allowed, none, _⟩ := change.bridge_of_code valid direct found lacks found' code
  rcases inherits with ⟨owner, implementor⟩ | ⟨bare, _⟩
  · exact (State.superImplementor?_eq_none valid.follows fair.rooted found).1 none owner implementor
  · rw [valid.allow, allowed] at bare
    cases bare

end

section

variable (fair : setting.IsFair) (valid : state.Valid setting)
  (direct : (method.isProxy && setting.allow) = false)

include fair valid direct

theorem Changes.keepsImplementor (changes : Changes setting state next)
    (implementor : Implementor state.class? method name owner) :
    Implementor next.class? method name owner := by
  induction changes with
  | refl => exact implementor
  | tail early change ih =>
    exact change.keepsImplementor fair (Changes.valid fair early valid) direct ih

theorem Changes.keepsLacking (changes : Changes setting state next)
    (found : state.class? name = some cls) (bare : setting.allow = false)
    (lacks : ∀ owner, ¬ Implementor state.class? method name owner) (owner : ClassName) :
    ¬ Implementor next.class? method name owner := by
  induction changes generalizing owner with
  | refl => exact lacks owner
  | tail early change ih =>
    obtain ⟨record, found', _⟩ := (Changes.grows early).classes found
    exact change.keepsLacking fair (Changes.valid fair early valid) direct found' (.inl bare) ih
      owner

theorem Changes.lacksCode (changes : Changes setting state next)
    (found : state.class? name = some cls) (lacks : state.LacksCode name method) :
    next.LacksCode name method := by
  induction changes with
  | refl => exact lacks
  | tail early change ih =>
    obtain ⟨record, found', _⟩ := (Changes.grows early).classes found
    exact change.lacksCode fair (Changes.valid fair early valid) direct found' ih

theorem Changes.shadows (changes : Changes setting state next)
    (shadows : Shadows state.class? state.allowForwarders name method) :
    Shadows next.class? next.allowForwarders name method := by
  induction changes with
  | refl => exact shadows
  | tail early change ih => exact change.shadows fair (Changes.valid fair early valid) direct ih

end

/-! ### What is reachable without code -/

namespace State

/-- Every class that is said to lack the method lacks it, and where the method is reachable without
code, this has been said or a method that is there hides inherited code. -/
structure Explains (state : State) (method : MethodName) : Prop where
  missing : ∀ {name cause}, .missingMethod ⟨name, .publicInstance, method⟩ cause ∈ state.errors →
    (∃ cls, state.class? name = some cls) ∧ state.LacksCode name method
  vague : ∀ {name entry}, state.method? ⟨name, .publicInstance, method⟩ = some entry →
    entry.isReached = true → entry.isConcrete = false →
      (∃ cause, .missingMethod ⟨name, .publicInstance, method⟩ cause ∈ state.errors) ∨
        entry.isPresent = true ∧ Shadows state.class? state.allowForwarders name method

/-- What has been explained stays so, so only what is new asks for an explanation. -/
theorem Explains.of_changes (fair : setting.IsFair) (valid : state.Valid setting)
    (direct : (method.isProxy && setting.allow) = false) (changes : Changes setting state next)
    (explains : state.Explains method)
    (missing : ∀ {name cause},
      .missingMethod ⟨name, .publicInstance, method⟩ cause ∈ next.errors →
        .missingMethod ⟨name, .publicInstance, method⟩ cause ∈ state.errors ∨
          (∃ cls, state.class? name = some cls) ∧ state.LacksCode name method)
    (vague : ∀ {name entry}, next.method? ⟨name, .publicInstance, method⟩ = some entry →
      entry.isReached = true → entry.isConcrete = false →
        state.method? ⟨name, .publicInstance, method⟩ = some entry ∨
          (∃ cause, .missingMethod ⟨name, .publicInstance, method⟩ cause ∈ next.errors) ∨
            entry.isPresent = true ∧ Shadows state.class? state.allowForwarders name method) :
    next.Explains method := by
  refine ⟨fun {name cause} mem => ?_, fun {name entry} has reached concrete => ?_⟩
  · obtain ⟨⟨cls, found⟩, lacks⟩ := (missing mem).elim explains.missing id
    obtain ⟨record, found', _⟩ := (Changes.grows changes).classes found
    exact ⟨⟨record, found'⟩, Changes.lacksCode fair valid direct changes found lacks⟩
  · have shadows := @Changes.shadows _ _ _ name _ fair valid direct changes
    rcases vague has reached concrete with before | reported | hides
    · rcases explains.vague before reached concrete with ⟨cause, mem⟩ | hides
      · exact .inl ⟨cause, (Changes.grows changes).errors.subset mem⟩
      · exact .inr (hides.imp_right shadows)
    · exact .inl reported
    · exact .inr (hides.imp_right shadows)

theorem Explains.quiet (fair : setting.IsFair) (valid : state.Valid setting)
    (direct : (method.isProxy && setting.allow) = false) (changes : Changes setting state next)
    (quiet : state.Quiet next) (explains : state.Explains method) : next.Explains method :=
  explains.of_changes fair valid direct changes (fun mem => .inl (quiet.silent mem))
    fun has reached _ => .inl (quiet.methods has reached)

end State

theorem silent_conflictErrors (method : MethodName) (owners : List ClassName) (cause : Cause) :
    Silent (conflictErrors method owners cause) := by
  intro id cause mem
  unfold conflictErrors at mem
  split at mem
  · cases mem
  · cases List.mem_singleton.1 mem

/-- What a call reports as missing has no code. -/
theorem Landing.missing (valid : state.Valid setting)
    (direct : (method.isProxy && setting.allow) = false) {cause cause' : Cause}
    {errors : List Diagnostic}
    (landing : Landing state name cause key owner cls entry errors)
    (new : .missingMethod ⟨other, .publicInstance, method⟩ cause' ∈ errors) :
    owner = other ∧ state.LacksCode other method := by
  obtain ⟨_, _⟩ := key
  cases landing with
  | own | proxy => cases new
  | absent _ unsearched =>
    cases List.mem_singleton.1 new
    rcases unsearched with space | reflective
    · exact absurd rfl space
    · rw [valid.allow] at reflective
      exact absurd (direct.symm.trans reflective) Bool.false_ne_true
  | resolved resolved =>
    cases resolved with
    | inherited => cases new
    | default _ _ _ _ _ _ conflicts =>
      exact absurd (conflicts new) (silent_conflictErrors _ _ _ _ _)
    | bridge => exact absurd new (silent_conflictErrors _ _ _ _ _)
    | missing lacks =>
      cases List.mem_singleton.1 new
      exact ⟨rfl, lacks⟩

/-- A call that lands where there is no code has reported so, or a method of the class hides
inherited code. -/
theorem Landing.vague (valid : state.Valid setting)
    (direct : (method.isProxy && setting.allow) = false) {cause : Cause}
    {errors : List Diagnostic} (found : state.class? owner = some cls)
    (landing : Landing state name cause ⟨.publicInstance, method⟩ owner cls entry errors)
    (vague : entry.isConcrete = false) :
    (∃ cause, .missingMethod ⟨owner, .publicInstance, method⟩ cause ∈ state.errors ++ errors) ∨
      cls.method? ⟨.publicInstance, method⟩ = some entry ∧
        Shadows state.class? state.allowForwarders owner method := by
  have no_code : entry.isConcrete ≠ true := Bool.eq_false_iff.1 vague
  have reported : ∀ {error}, error ∈ state.errors ++ [error] :=
    List.mem_append_right _ List.mem_cons_self
  cases landing with
  | resolved resolved =>
    cases resolved with
    | inherited _ _ concrete | default _ _ _ _ _ concrete => exact absurd concrete no_code
    | missing => exact .inl ⟨cause, reported⟩
    | bridge => cases vague
  | absent => exact .inl ⟨cause, reported⟩
  | proxy => cases vague
  | own has unsearched =>
    obtain ⟨kind, answered⟩ : (state.allowForwarders = true → cls.kind.isOrdinary = true) ∧
        state.Answered name method := by
      rcases unsearched with space | reflective | ⟨kind, dispatched⟩
      · exact absurd rfl space
      · rw [valid.allow] at reflective
        exact absurd (direct.symm.trans reflective) Bool.false_ne_true
      · unfold State.Dispatched at dispatched
        rw [valid.allow, direct, if_neg Bool.false_ne_true] at dispatched
        exact ⟨kind, dispatched⟩
    rcases answered.inheritsCode found kind with inherits | ⟨_, _, cause, mem⟩
    · exact .inr ⟨has, ⟨cls, entry, found, has, vague⟩, inherits⟩
    · exact .inl ⟨cause, List.mem_append_left _ mem⟩

namespace State

/-- Where a call lands, what is reachable without code is explained. -/
theorem Explains.lands (fair : setting.IsFair) (valid : state.Valid setting)
    (direct : (method.isProxy && setting.allow) = false) (changes : Changes setting state next)
    {cause : Cause} (lands : state.Lands name key cause next) (explains : state.Explains method) :
    next.Explains method := by
  cases lands with
  | @intro owner cls entry errors found landing =>
  refine explains.of_changes fair valid direct changes (fun {name' cause'} mem => ?_)
    fun {name' entry'} has reached vague => ?_
  · refine (List.mem_append.1 mem).imp_right fun new => ?_
    obtain ⟨rfl, lacks⟩ := landing.missing valid direct new
    exact ⟨⟨cls, found⟩, lacks⟩
  · rw [method?_called found] at has
    split at has
    · rename_i same
      obtain ⟨rfl, rfl⟩ := same
      obtain rfl := Option.some.inj has
      right
      rcases landing.vague valid direct found vague with reported | ⟨has, hides⟩
      · exact .inl reported
      · cases present : entry.isPresent with
        | true => exact .inr ⟨present, hides⟩
        | false =>
          have was_reached : entry.isReached = true := by
            cases (valid.classes found).entries has with
            | declared _ _ isPresent | added _ _ _ _ _ _ _ isPresent =>
              rw [present] at isPresent; cases isPresent
            | missing _ _ _ _ isReached => exact isReached
          have before : state.method? ⟨name', .publicInstance, method⟩ = some entry := by
            rw [method?, found]
            exact has
          rcases explains.vague before was_reached vague with ⟨cause', mem⟩ | ⟨isPresent, _⟩
          · exact .inl ⟨cause', List.mem_append_left _ mem⟩
          · rw [present] at isPresent; cases isPresent
    · exact .inl has

end State

/-- Taking a task off the list needs no explanation. -/
theorem State.Explains.withWork (explains : state.Explains method) (rest : List Task) :
    ({ state with work := rest } : State).Explains method :=
  ⟨fun mem => (explains.missing mem).imp_right fun lacks => ⟨lacks.lacks, lacks.owners⟩,
    explains.vague⟩

/-- Doing a task explains what it does. -/
theorem Effects.explains (fair : setting.IsFair) (full : ∀ fact, setting.facts fact)
    (valid : state.Valid setting) (justified : setting.Justifies task)
    (direct : (method.isProxy && setting.allow) = false) (effects : Effects task state next)
    (explains : state.Explains method) : next.Explains method := by
  induction effects with
  | refl => exact explains
  | @tail middle final early effect ih =>
    have before := Effects.changes fair full valid justified early
    have valid := Changes.valid fair before valid
    have changes := effect.changes fair full valid justified
    rcases effect.strokes_or_lands fair valid justified with strokes | ⟨_, _, _, lands⟩
    · exact ih.quiet fair valid direct changes (Strokes.quiet strokes)
    · exact ih.lands fair valid direct changes lands

/-- A turn does a task, or makes no method reachable and reports none as missing. -/
theorem Turn.quiet_or_perform (fair : setting.IsFair) (turn : Turn setting state next) :
    (Changes setting state next ∧ state.Quiet next) ∨ ∃ task rest, state.InOrder setting ∧
      state.work = task :: rest ∧ next = ({ state with work := rest } : State).perform task := by
  cases turn with
  | perform order work => exact .inr ⟨_, _, order, work, rfl⟩
  | link linking =>
    cases linking with
    | settle step =>
      refine .inl ⟨step.changes, ?_⟩
      cases step with
      | absent => exact .link rfl .nil
      | link => exact .link rfl (ClassSummary.silent_linkErrors _ _ _)
      | fail status => exact .setStatus (State.class?_eq_none_of_status status rfl) rfl
      | cycle _ loaded => exact .failCycle _ loaded
    | @request _ parent _ new =>
      have unlinked : state.class? parent = none := State.class?_eq_none_of_new new
      exact .inl ⟨.single (.await new fun _ mem => by cases mem), .await unlinked⟩
    | queue unlinked =>
      exact .inl ⟨.single (.queue state.wanted unlinked), fun h _ => h, id⟩
  | handOver => exact .inl ⟨.single (.queue [] state.unlinked), fun h _ => h, id⟩
  | @receive name _ awaited =>
    exact .inl ⟨.single (.receive fun status h => ⟨_, Option.some.inj (h.symm.trans awaited)⟩),
      .receive (State.class?_eq_none_of_status awaited rfl) _⟩
  | root blank =>
    subst blank
    exact .inl ⟨.single (.receive fun status h => by rw [State.status?_blank] at h; cases h),
      .receive (State.class?_blank ..) _⟩
  | ask =>
    rw [State.addTasks_eq]
    exact .inl ⟨.single (.extend [] fun _ mem => Setting.justifies_rootTasks fair mem),
      .extend _ .nil⟩

/-- Every turn explains what it does. -/
theorem Turn.explains (fair : setting.IsFair) (full : ∀ fact, setting.facts fact)
    (valid : state.Valid setting) (direct : (method.isProxy && setting.allow) = false)
    (turn : Turn setting state next) (explains : state.Explains method) :
    next.Explains method := by
  rcases turn.quiet_or_perform fair with ⟨changes, quiet⟩ | ⟨task, rest, order, work, rfl⟩
  · exact explains.quiet fair valid direct changes quiet
  · have takes := order.takes work
    exact Effects.explains fair full takes.valid takes.justified direct
      (State.effects_perform fair full takes.valid takes.consistent takes.justified)
      (explains.withWork rest)

theorem Turns.explains (fair : setting.IsFair) (full : ∀ fact, setting.facts fact)
    (valid : state.Valid setting) (direct : (method.isProxy && setting.allow) = false)
    (turns : Turns setting state next) (explains : state.Explains method) :
    next.Explains method := by
  induction turns with
  | refl => exact explains
  | tail early turn ih => exact turn.explains fair full (Turns.valid fair early valid) direct ih

theorem State.explains_empty (setting : Setting) (method : MethodName) :
    State.Explains { allowForwarders := setting.allow } method :=
  ⟨fun mem => (by cases mem), fun {name entry} has => by simp [method?] at has⟩

end ClassLinker
