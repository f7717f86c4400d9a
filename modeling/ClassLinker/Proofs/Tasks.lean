import ClassLinker.Proofs.Instances

/-!
# Doing a task

`State.perform` as steps of an analysis. `State.Covers` says that a task has been done or waits to
be; a task covers itself by being done (`State.performs`), and stays covered whatever is done later
(`Changes.covers`). `State.Performs` collects what is kept while a task is done: consistency, the
order of the queues, and that every module that is read gets its constructor called.
-/

namespace ClassLinker

variable {setting : Setting} {state next : State} {scope : Scope}
variable {name other : ClassName} {cls record : ClassRecord} {task : Task}
variable {method : MethodName} {key : MethodKey}

/-! ### Reading modules -/

/-- The call of the constructor of a module. -/
def constructorTask (name : ClassName) (cause : Cause) : Task :=
  { cls := name, action := .fulfil (.callDirect ⟨.constructor, .defaultConstructor⟩), cause }

theorem ClassKind.isInstantiable_of_isModule {kind : ClassKind} (h : kind.isModule = true) :
    kind.isInstantiable = true := by
  cases kind <;> first | rfl | cases h

/-- The steps keep a state consistent, the modules that they read get their constructors called, and
calls that are new for a class are made there. -/
structure State.Performs (setting : Setting) (before after : State) : Prop where
  changes : Changes setting before after
  sameQueue : before.SameQueue after
  consistent : before.Consistent → after.Consistent
  modules : ∀ {name record}, after.class? name = some record → record.uses.module = true →
    record.kind.isOrdinary = true →
      (∃ cls, before.class? name = some cls ∧ cls.uses.module = true) ∨
        ∃ cause, constructorTask name cause ∈ after.work
  made : ∀ {name record other call}, after.class? name = some record →
    other ∈ record.inhabited → call ∈ record.calls →
      (∃ cls, before.class? name = some cls ∧ other ∈ cls.inhabited ∧ call ∈ cls.calls) ∨
        State.Made setting before after other call

namespace State.Performs

/-- A call that is new for a class is new itself, or the class is. -/
theorem made_of_heeds (valid : state.Valid setting) (heeds : state.Heeds setting scope next)
    {call : MethodName × Cause} (found : next.class? name = some record)
    (resident : other ∈ record.inhabited) (noted : call ∈ record.calls) :
    (∃ cls, state.class? name = some cls ∧ other ∈ cls.inhabited ∧ call ∈ cls.calls) ∨
      State.Made setting state next other call := by
  obtain ⟨cls, found', within⟩ := Acts.within heeds.acts found
  have name_eq := valid.follows.name_eq found'
  rcases within.residents other resident with before | new
  · rcases within.calls call noted with before' | new
    · exact .inl ⟨cls, found', before, before'⟩
    · exact .inr (heeds.made found resident noted (.inr (name_eq ▸ new)))
  · exact .inr (heeds.made found resident noted (.inl new))

theorem of_heeds (fair : setting.IsFair) (valid : state.Valid setting)
    (unread : ∀ name, ¬ scope.read name) (heeds : state.Heeds setting scope next) :
    state.Performs setting next where
  changes := Acts.changes heeds.acts
  sameQueue := Acts.sameQueue heeds.acts
  consistent consistent := consistent.of_acts fair valid heeds.acts heeds.created
    (fun _ h => absurd h (unread _)) fun found resident noted new =>
      (heeds.made found resident noted new).dispatched fair valid
  modules found uses _ := by
    obtain ⟨cls, found', within⟩ := Acts.within heeds.acts found
    exact .inl ⟨cls, found', (within.read uses).resolve_right (unread _)⟩
  made := made_of_heeds valid heeds

theorem of_acts (fair : setting.IsFair) (valid : state.Valid setting)
    (acts : Acts setting {} state next) : state.Performs setting next :=
  of_heeds fair valid (fun _ h => h) (.of_acts_empty acts)

end State.Performs

/-- Steps that read a module and then see to its instance, if the constructor has been put on the
list. -/
theorem State.Performs.of_read {told : State} (fair : setting.IsFair) (valid : state.Valid setting)
    (tell : Acts setting { read := (· = name) } state told) (unread : ∀ name, ¬ scope.read name)
    (heeds : told.Heeds setting scope next) (found : next.class? name = some record)
    (kind : record.kind.isModule = true) (created : record.uses.instances = true)
    (called : record.kind.isOrdinary = true → ∃ cause, constructorTask name cause ∈ next.work) :
    state.Performs setting next := by
  let wider : Scope := { scope with read := (· = name) }
  have early : Acts setting wider state told :=
    @Acts.mono setting state told { read := (· = name) } wider (fun _ => False.elim)
      (fun _ h => h) (fun _ _ => False.elim) tell
  have late : Acts setting wider told next :=
    @Acts.mono setting told next scope wider (fun _ h => h)
      (fun name h => absurd h (unread name)) (fun _ _ h => h) heeds.acts
  have acts := early.trans late
  have heeds' : state.Heeds setting wider next := ⟨acts, heeds.created,
    fun found resident noted new =>
      (heeds.made found resident noted new).extend (Acts.changes tell) .refl⟩
  refine ⟨Acts.changes acts, Acts.sameQueue acts, fun consistent => ?_,
    fun {other linked} h uses ordinary => ?_, made_of_heeds valid heeds'⟩
  · refine consistent.of_acts fair valid acts heeds.created (fun {other linked} h new => ?_)
      fun found resident noted new =>
        (heeds'.made found resident noted new).dispatched fair valid
    obtain rfl : other = name := new
    obtain rfl := Option.some.inj (found.symm.trans h)
    exact ⟨kind, created⟩
  · obtain ⟨before, h', within⟩ := Acts.within acts h
    rcases within.read uses with before_read | new
    · exact .inl ⟨before, h', before_read⟩
    · obtain rfl : other = name := (valid.follows.name_eq h').symm.trans new
      obtain rfl := Option.some.inj (found.symm.trans h)
      exact .inr (called ordinary)

/-- The first time that a module is read, its instance is created, and its constructor called unless
the module belongs to JavaScript. -/
theorem State.performs_readModule_first (fair : setting.IsFair) (valid : state.Valid setting)
    (found : state.class? name = some cls) (present : cls.isPresent = true)
    (kind : cls.kind.isModule = true) (unread : cls.uses.module = false)
    (asked : setting.facts (.asked name (.use .module))) (cause : Cause) :
    state.Performs setting (state.readModule name cause) ∧
      ∃ record, (state.readModule name cause).class? name = some record ∧
        record.uses.module = true := by
  obtain rfl := valid.follows.name_eq found
  have linked := valid.follows.classes_eq found
  have fact := fair.closed _ (.module asked linked present kind)
  let told := state.revise cls.name (cls.addUse .module) [] []
  have within : cls.Within { read := (· = cls.name) } (cls.addUse .module) :=
    ⟨.inl, fun _ => .inr rfl, fun _ => .inl, fun _ => .inl⟩
  have tell : Acts setting { read := (· = cls.name) } state told :=
    .single (.update found (.use present fact) within)
  have valid' := Changes.valid fair (Acts.changes tell) valid
  have found' : told.class? cls.name = some (cls.addUse .module) := by
    rw [class?_revise, if_pos rfl]
  obtain ⟨scope, unread', heeds, record, created, instances⟩ := heeds_create fair valid' found'
    present (fun _ => fair.closed _ (.moduleInstance fact)) cause
  let tasks := if cls.kind.isOrdinary then [constructorTask cls.name cause] else []
  have justified : ∀ task ∈ tasks, setting.Justifies task := by
    intro task mem
    simp only [tasks] at mem
    split at mem
    · rename_i ordinary
      obtain rfl := List.mem_singleton.1 mem
      exact fair.closed _ (.moduleConstructor fact linked ordinary)
    · cases mem
  have same : state.readModule cls.name cause =
      (told.create cls.name cause).extend tasks [] := by
    simp only [readModule, found, kind, Bool.not_true, Bool.false_eq_true, if_false, unread,
      told, revise_nil, tasks]
    split
    · rw [addTasks_eq]; rfl
    · rw [extend_nil]
  have growth : (cls.addUse .module).Grows record := by
    obtain ⟨_, h, growth⟩ := (Changes.grows (Acts.changes heeds.acts)).classes found'
    obtain rfl := Option.some.inj (created.symm.trans h)
    exact growth
  rw [same]
  refine ⟨.of_read fair valid tell unread' (heeds.extend justified) created
    (growth.kind_eq ▸ kind) (instances (ClassKind.isInstantiable_of_isModule kind))
    fun ordinary => ⟨cause, List.mem_append_right _ ?_⟩, record, created, growth.read rfl⟩
  have ordinary : cls.kind.isOrdinary = true := by
    rw [growth.kind_eq] at ordinary
    exact ordinary
  simp only [tasks, ordinary, if_true, List.mem_singleton]

/-- Reading a module creates its instance and calls its constructor. -/
theorem State.performs_readModule (fair : setting.IsFair) (valid : state.Valid setting)
    (found : state.class? name = some cls) (present : cls.isPresent = true)
    (asked : setting.facts (.asked name (.use .module))) (cause : Cause) :
    state.Performs setting (state.readModule name cause) ∧
      ∃ record, (state.readModule name cause).class? name = some record ∧
        (state.readModule name cause).Fulfils record (.use .module) := by
  by_cases kind : cls.kind.isModule = true
  · by_cases read : cls.uses.module = true
    · have same : state.readModule name cause = state := by
        simp only [readModule, found, kind, read, Bool.not_true, Bool.false_eq_true, if_false,
          if_true]
      rw [same]
      exact ⟨.of_acts fair valid .refl, cls, found, .inl read⟩
    · obtain ⟨performs, record, found', read⟩ := performs_readModule_first fair valid found present
        kind (Bool.eq_false_iff.2 read) asked cause
      exact ⟨performs, record, found', .inl read⟩
  · have same : state.readModule name cause = state.extend [] [.notAModule name cause] := by
      rw [← report_eq]
      simp only [readModule, found, kind, Bool.not_false, if_true]
    rw [same]
    refine ⟨.of_acts fair valid (.single (.extend _ fun _ mem => by cases mem)), cls, found,
      .inr ⟨Bool.eq_false_iff.2 kind, ?_⟩⟩
    exact List.append_ne_nil_of_right_ne_nil _ (List.cons_ne_nil _ _)

/-! ### Calls with dynamic dispatch -/

/-- A call is made on instances of a class below that receives it, unless it has been dispatched
there before; the two come to the same. -/
theorem State.made_below (fair : setting.IsFair) {below : ClassName} {again : Bool}
    (valid : state.Valid setting) (early : Changes setting state next) (validN : next.Valid setting)
    (found : next.class? below = some cls)
    (kind : setting.allow = true → cls.kind.isOrdinary = true)
    (grants : setting.Grants below method) (cause : Cause)
    (dispatched : again = true → state.Dispatched below method ∧ ∃ record,
      state.class? below = some record) :
    let after := if again then next.callAgain below method cause
      else next.callExact below method cause
    Calls setting next after ∧ ∀ later, Calls setting after later →
      State.Made setting state later below (method, cause) := by
  cases again with
  | true =>
    obtain ⟨earlier, record, found'⟩ := dispatched rfl
    have dispatchedN := Changes.dispatched fair valid early found' earlier
    simp only [if_true]
    exact ⟨calls_callAgain fair validN grants found kind dispatchedN cause, fun later late =>
      ⟨⟨next, cls, early, found, kind, .inr ⟨dispatchedN, Calls.changes late⟩⟩, grants⟩⟩
  | false =>
    exact ⟨(calls_callExact fair validN grants found kind cause).1, fun later late =>
      ⟨⟨next, cls, early, found, kind, .inl (Calls.changes late)⟩, grants⟩⟩

/-- A call with dynamic dispatch is noted, and dispatched in all classes below with instances. -/
theorem State.performs_callDispatched (fair : setting.IsFair) (valid : state.Valid setting)
    (found : state.class? name = some cls) (present : cls.isPresent = true)
    (asked : setting.facts (.asked name (.call method))) (cause : Cause)
    (consistent : state.Consistent) :
    state.Performs setting (state.callDispatched name method cause) ∧
      ∃ record, (state.callDispatched name method cause).class? name = some record ∧
        (cls.kind.isJS = false → ∃ cause, (method, cause) ∈ record.calls) := by
  obtain rfl := valid.follows.name_eq found
  by_cases idle : (cls.kind.isJS || (method, cause) ∈ cls.calls) = true
  · have same : state.callDispatched cls.name method cause = state := by
      simp only [callDispatched, found, idle, if_true]
    rw [same]
    refine ⟨.of_acts fair valid .refl, cls, found, fun notJS => ⟨cause, ?_⟩⟩
    simpa [notJS] using idle
  · have notJS : cls.kind.isJS = false := by
      revert idle; cases cls.kind.isJS <;> simp
    let noting : ClassRecord := { cls with calls := cls.calls ++ [(method, cause)] }
    let noted := state.revise cls.name noting [] []
    let scope : Scope := { noted := fun name call => name = cls.name ∧ call = (method, cause) }
    have within : cls.Within scope noting := by
      refine ⟨.inl, .inl, fun _ => .inl, fun call mem => ?_⟩
      refine (List.mem_append.1 mem).imp_right fun mem => ?_
      rw [List.mem_singleton.1 mem]
      exact ⟨rfl, rfl⟩
    have note : Acts setting scope state noted :=
      .single (.update found (.note present notJS asked) within)
    have valid' := Changes.valid fair (Acts.changes note) valid
    have found' : noted.class? cls.name = some noting := by rw [class?_revise, if_pos rfl]
    let isDispatched := cls.calls.any fun call => call.1 = method
    let call := fun (state : State) (below : ClassName) =>
      if isDispatched then state.callAgain below method cause
      else state.callExact below method cause
    let final := cls.inhabited.foldl call noted
    have same : state.callDispatched cls.name method cause = final := by
      simp only [callDispatched, found, idle, final, call, noted, revise_nil, noting, isDispatched]
      rfl
    have last : (method, cause) ∈ noting.calls := List.mem_append_right _ List.mem_cons_self
    have grants : ∀ below ∈ cls.inhabited, setting.Grants below method := by
      intro below mem
      obtain ⟨receiver, hr, kind, uses, above⟩ := valid'.residents found' mem
      exact valid'.grants fair hr kind uses above found' last
    -- Either the call has been dispatched in a class before, or it is now.
    have makes : ∀ s, Calls setting noted s → ∀ below ∈ cls.inhabited,
        Calls setting s (call s below) ∧ ∀ after, Calls setting (call s below) after →
          State.Made setting state after below (method, cause) := by
      intro s before below mem
      obtain ⟨receiver, hr, kind, _⟩ := valid'.residents found' mem
      obtain ⟨still, hs, growth⟩ := (Changes.grows before.changes).classes hr
      refine made_below fair valid ((Acts.changes note).trans before.changes)
        (Changes.valid fair before.changes valid') hs (fun _ => growth.kind_eq ▸ kind)
        (grants below mem) cause fun again => ?_
      obtain ⟨earlier, hm, same⟩ := List.any_eq_true.1 again
      obtain ⟨receiver', hr', _⟩ := valid.residents found mem
      have dispatched := consistent.dispatched found mem hm
      rw [of_decide_eq_true same] at dispatched
      exact ⟨dispatched, receiver', hr'⟩
    obtain ⟨calls, each⟩ := foldl_steps cls.inhabited noted fun s before below mem =>
      (makes s before below mem).1
    have heeds : state.Heeds setting scope final := by
      refine ⟨note.trans (Calls.acts calls), fun _ h => h.elim,
        fun {upper record other entry} h resident mem new => ?_⟩
      obtain ⟨rfl, rfl⟩ := new.resolve_left False.elim
      obtain ⟨before, hbefore, _, same_residents⟩ := Calls.found_before calls h
      obtain rfl := Option.some.inj (found'.symm.trans hbefore)
      have same_residents : cls.inhabited = record.inhabited := same_residents
      obtain ⟨s, early, late⟩ := each other (same_residents ▸ resident)
      exact (makes s early other (same_residents ▸ resident)).2 final late
    rw [same]
    obtain ⟨record, hr, growth⟩ := (Changes.grows (Calls.changes calls)).classes found'
    refine ⟨.of_heeds fair valid (fun _ h => h) heeds, record, hr, fun _ => ⟨cause, ?_⟩⟩
    exact growth.calls.subset (List.mem_append_right _ List.mem_cons_self)

/-! ### Tasks that are covered -/

namespace State

/-- The demand is fulfilled, or a task for it waits. -/
def CoversDue (state : State) (due : Task) : Prop :=
  state.Awaits due ∨ ∃ demand cls, due.action = .fulfil demand ∧ state.class? due.cls = some cls ∧
    state.Spares cls due ∧ (cls.isPresent = true → state.Fulfils cls demand)

/-- What the task is to do has been done, as far as its class exists. Entering a class puts tasks
on the list, which are covered in turn. -/
def Settles (state : State) (task : Task) : Prop :=
  ∃ cls, state.class? task.cls = some cls ∧ state.Spares cls task ∧ (cls.isPresent = true →
    match task.action with
    | .fulfil demand => state.Fulfils cls demand
    | .callExact method => state.Dispatched task.cls method
    | .enter => ∀ due ∈ entryTasks cls, state.CoversDue due)

/-- The task has been done or waits to be. -/
def Covers (state : State) (task : Task) : Prop :=
  state.Awaits task ∨ state.Settles task

end State

theorem State.entryTasks_congr (same : record.fresh = cls.fresh) :
    State.entryTasks record = State.entryTasks cls := by
  show State.entryTasks record.fresh = _
  rw [same]
  rfl

section

variable (fair : setting.IsFair) (valid : state.Valid setting)

include fair valid

theorem Changes.coversDue (changes : Changes setting state next) (covers : state.CoversDue task) :
    next.CoversDue task := by
  rcases covers with awaits | ⟨demand, cls, action, found, spares, fulfils⟩
  · exact .inl (Changes.awaits changes awaits)
  · obtain ⟨record, found', growth⟩ := (Changes.grows changes).classes found
    obtain ⟨record', h, fulfils⟩ := Changes.meets fair valid changes ⟨cls, found, fulfils⟩
    obtain rfl := Option.some.inj (found'.symm.trans h)
    have spares := spares.grows (Changes.grows changes) growth
    exact .inr ⟨demand, record, action, found', spares, fulfils⟩

theorem Changes.settles (changes : Changes setting state next) (settles : state.Settles task) :
    next.Settles task := by
  obtain ⟨cls, found, spares, done⟩ := settles
  obtain ⟨record, found', growth⟩ := (Changes.grows changes).classes found
  refine ⟨record, found', spares.grows (Changes.grows changes) growth, fun present => ?_⟩
  have done := done (growth.isPresent_eq ▸ present)
  cases action : task.action with
  | fulfil demand =>
    rw [action] at done
    obtain ⟨record', h, fulfils⟩ :=
      Changes.meets fair valid changes ⟨cls, found, fun _ => done⟩
    obtain rfl := Option.some.inj (found'.symm.trans h)
    exact fulfils present
  | callExact method =>
    rw [action] at done
    exact Changes.dispatched fair valid changes found done
  | enter =>
    rw [action] at done
    intro due mem
    rw [State.entryTasks_congr growth.fresh_eq] at mem
    exact Changes.coversDue fair valid changes (done due mem)

theorem Changes.covers (changes : Changes setting state next) (covers : state.Covers task) :
    next.Covers task :=
  covers.imp (Changes.awaits changes) (Changes.settles fair valid changes)

end

/-! ### Doing something with a class -/

/-- Using a class. -/
theorem State.performs_useClass (fair : setting.IsFair) (valid : state.Valid setting)
    (found : state.class? name = some cls) (present : cls.isPresent = true) {use : Use}
    (asked : setting.facts (.asked name (.use use))) (cause : Cause) :
    state.Performs setting (state.useClass name use cause) ∧
      ∃ record, (state.useClass name use cause).class? name = some record ∧
        (state.useClass name use cause).Fulfils record (.use use) := by
  have linked := valid.follows.classes_eq found
  have plain : ∀ use, use ≠ .instances → use ≠ .module → setting.facts (.asked name (.use use)) →
      let after := state.modifyClass name fun cls => cls.addUse use
      state.Performs setting after ∧ ∃ record, after.class? name = some record ∧
        record.uses.contains use = true := by
    intro use notInstances notModule asked after
    have same : after = state.revise name (cls.addUse use) [] [] := by
      rw [revise_nil]
      simp only [after, modifyClass, found]
    have fact := fair.closed _ (.plainUse asked linked present notInstances notModule)
    have within : cls.Within {} (cls.addUse use) := by
      refine ⟨fun h => .inl ?_, fun h => .inl ?_, fun _ => .inl, fun _ => .inl⟩ <;>
        cases use <;> first | exact h | contradiction
    obtain rfl := valid.follows.name_eq found
    rw [same]
    refine ⟨.of_acts fair valid (.single (.update found (.use present fact) within)),
      cls.addUse use, ?_, ?_⟩
    · rw [class?_revise, if_pos rfl]
    · rw [ClassRecord.addUse, Uses.contains_insert, decide_eq_true rfl, Bool.true_or]
  cases use with
  | instances =>
    obtain ⟨scope, unread, heeds, record, found', created⟩ := heeds_create fair valid found present
      (fun kind => fair.closed _ (.instances asked linked present kind)) cause
    obtain ⟨_, h, growth⟩ := (Changes.grows (Acts.changes heeds.acts)).classes found
    obtain rfl := Option.some.inj (found'.symm.trans h)
    refine ⟨.of_heeds fair valid unread heeds, record, found', fun kind => created ?_⟩
    rwa [← growth.kind_eq]
  | module =>
    exact performs_readModule fair valid found present asked cause
  | tests | typeData | staticFields | privateFields =>
    exact plain _ (fun h => by cases h) (fun h => by cases h) asked

theorem State.justifies_entryTasks (fair : setting.IsFair) (valid : state.Valid setting)
    (found : state.class? name = some cls) (entry : name ∈ setting.entryPoints)
    (mem : task ∈ entryTasks cls) : setting.Justifies task := by
  obtain rfl := valid.follows.name_eq found
  have linked := valid.follows.classes_eq found
  unfold entryTasks at mem
  split at mem
  · cases mem
  · rename_i summary known
    rcases List.mem_append.1 mem with mem | mem
    · split at mem
      · rename_i initializes
        obtain rfl := List.mem_singleton.1 mem
        exact fair.closed _ (.initializer entry linked known initializes)
      · cases mem
    · obtain ⟨item, hi, mem⟩ := List.mem_flatMap.1 mem
      exact Demands.justifies_tasks
        (fun demands => fair.closed _ (.exported entry linked known hi demands)) mem

/-- A task for a class that exists settles itself. -/
theorem State.performs_act (fair : setting.IsFair) (valid : state.Valid setting)
    (consistent : state.Consistent) (found : state.class? task.cls = some cls)
    (present : cls.isPresent = true) (justified : setting.Justifies task) :
    state.Performs setting (state.act cls task.action task.cause) ∧
      (state.act cls task.action task.cause).Settles task := by
  obtain ⟨owner, action, cause, isOptional⟩ := task
  obtain rfl : cls.name = owner := valid.follows.name_eq found
  have linked := valid.follows.links found
  have spares : ∀ {next record}, Changes setting state next → next.class? cls.name = some record →
      next.Spares record ⟨cls.name, action, cause, isOptional⟩ := by
    intro next record changes found'
    obtain ⟨_, h, growth⟩ := (Changes.grows changes).classes found
    obtain rfl := Option.some.inj (found'.symm.trans h)
    exact .inl (growth.isPresent_eq ▸ present)
  cases action with
  | fulfil demand =>
    cases demand with
    | use use =>
      obtain ⟨performs, record, found', fulfils⟩ :=
        performs_useClass fair valid found present justified cause
      exact ⟨performs, record, found', spares performs.changes found', fun _ => fulfils⟩
    | call method =>
      obtain ⟨performs, record, found', noted⟩ :=
        performs_callDispatched fair valid found present justified cause consistent
      obtain ⟨_, h, growth⟩ := (Changes.grows performs.changes).classes found
      obtain rfl := Option.some.inj (found'.symm.trans h)
      refine ⟨performs, record, found', spares performs.changes found', fun _ notJS => noted ?_⟩
      rwa [← growth.kind_eq]
    | callDirect key =>
      obtain ⟨calls, fulfils⟩ := calls_callDirect fair valid found present justified cause
      obtain ⟨record, found', growth⟩ := (Changes.grows calls.changes).classes found
      refine ⟨.of_acts fair valid calls.acts, record, found', spares calls.changes found',
        fun _ => ?_⟩
      simp only [Fulfils, ClassRecord.idOf, growth.name_eq] at fulfils ⊢
      exact fulfils
  | callExact method =>
    obtain ⟨allowed, ordinary⟩ := justified
    have grants : setting.Grants cls.name method := fun bare => by rw [allowed] at bare; cases bare
    obtain ⟨calls, dispatched⟩ := calls_callExact fair valid grants found
      (fun _ => ordinary cls.fresh linked) cause
    obtain ⟨record, found', _⟩ := (Changes.grows calls.changes).classes found
    exact ⟨.of_acts fair valid calls.acts, record, found', spares calls.changes found',
      fun _ => dispatched⟩
  | enter =>
    have tasks : ∀ task ∈ entryTasks cls, setting.Justifies task := fun _ =>
      justifies_entryTasks fair valid found justified
    show state.Performs setting (state.addTasks (entryTasks cls)) ∧ _
    rw [show state.act cls .enter cause = state.addTasks (entryTasks cls) from rfl, addTasks_eq]
    refine ⟨.of_acts fair valid (.single (.extend [] tasks)), cls, found, .inl present,
      fun _ due mem => ?_⟩
    exact .inl (.inl (List.mem_append_right _ mem))

end ClassLinker
