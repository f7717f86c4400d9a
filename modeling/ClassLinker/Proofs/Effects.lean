import ClassLinker.Proofs.Turns

/-!
# What doing a task consists of

`Change` leaves open what a step is made for. `Effect task state next` does not: it is one of the
operations that doing the task calls for, as the operation is written, with what is known of the
class of the task when it is made. Doing a task is a sequence of effects (`State.effects_perform`),
so a property of runs that depends on which method an operation picks is proved effect by effect.

Where it does not matter what an operation is made for, an effect is a call that lands somewhere, or
a sequence of the simplest changes, each a `Stroke` (`Effect.strokes_or_lands`).
-/

namespace ClassLinker

variable {setting : Setting} {state next : State}
variable {name other : ClassName} {cls record : ClassRecord} {task : Task}
variable {method : MethodName} {key : MethodKey}

/-- One of the operations that doing the task consists of. -/
inductive Effect (task : Task) (state : State) : State → Prop
  | use {cls : ClassRecord} {use : Use} (found : state.class? task.cls = some cls)
      (present : cls.isPresent = true) (asked : task.action = .fulfil (.use use))
      (notInstances : use ≠ .instances) (kind : use = .module → cls.kind.isModule = true) :
      Effect task state (state.revise task.cls (cls.addUse use) [] [])
  | creator {cls : ClassRecord} (found : state.class? task.cls = some cls)
      (asked : task.action = .fulfil (.use .instances) ∨ task.action = .fulfil (.use .module)) :
      Effect task state (state.revise task.cls
        { cls with creators := recordOnce cls.creators task.cause } [] [])
  /-- Instances are created because the task asks for them, or because the module is read. -/
  | create {cls : ClassRecord} (found : state.class? task.cls = some cls)
      (present : cls.isPresent = true)
      (asked : task.action = .fulfil (.use .instances) ∨ cls.uses.module = true)
      (kind : cls.kind.isInstantiable = true) (credited : cls.creators ≠ []) :
      Effect task state (state.revise task.cls (cls.addUse .instances) [] [])
  | mark {cls : ClassRecord} {ancestor : ClassName} (found : state.class? task.cls = some cls)
      (created : cls.uses.instances = true) (kind : cls.kind.isOrdinary = true)
      (mem : ancestor ∈ cls.ancestors) :
      Effect task state ((state.markInstances ancestor).addInhabited task.cls ancestor)
  | markJS {cls : ClassRecord} (found : state.class? task.cls = some cls)
      (created : cls.uses.instances = true) (kind : cls.kind.isDefinedJS = true) :
      Effect task state (state.createJS cls)
  | markNative {cls : ClassRecord} (found : state.class? task.cls = some cls)
      (created : cls.uses.instances = true) (notOrdinary : cls.kind.isOrdinary = false)
      (notDefined : cls.kind.isDefinedJS = false) :
      Effect task state (state.markInstances task.cls)
  | construct {cls : ClassRecord} (found : state.class? task.cls = some cls)
      (asked : task.action = .fulfil (.use .module)) (read : cls.uses.module = true)
      (kind : cls.kind.isOrdinary = true) :
      Effect task state (state.extend [constructorTask task.cls task.cause] [])
  | note {cls : ClassRecord} {method : MethodName} (found : state.class? task.cls = some cls)
      (present : cls.isPresent = true) (notJS : cls.kind.isJS = false)
      (asked : task.action = .fulfil (.call method)) :
      Effect task state (state.revise task.cls
        { cls with calls := cls.calls ++ [(method, task.cause)] } [] [])
  /-- A call that is noted is made on instances of one of the classes below. -/
  | dispatch {upper receiver : ClassName} {record : ClassRecord} {call : MethodName × Cause}
      (found : state.class? upper = some record) (resident : receiver ∈ record.inhabited)
      (noted : call ∈ record.calls) : Effect task state (state.callExact receiver call.1 call.2)
  | again {upper receiver : ClassName} {record : ClassRecord} {call : MethodName × Cause}
      (found : state.class? upper = some record) (resident : receiver ∈ record.inhabited)
      (noted : call ∈ record.calls) (dispatched : state.Dispatched receiver call.1) :
      Effect task state (state.callAgain receiver call.1 call.2)
  | exact {cls : ClassRecord} {method : MethodName} (found : state.class? task.cls = some cls)
      (asked : task.action = .callExact method) :
      Effect task state (state.callExact task.cls method task.cause)
  | direct {cls : ClassRecord} {key : MethodKey} (found : state.class? task.cls = some cls)
      (present : cls.isPresent = true) (asked : task.action = .fulfil (.callDirect key)) :
      Effect task state (state.callDirect task.cls key task.cause)
  | enter {cls : ClassRecord} (found : state.class? task.cls = some cls)
      (asked : task.action = .enter) :
      Effect task state (state.extend (State.entryTasks cls) [])
  /-- The class of the task is not a module, or does not exist. -/
  | report {error : Diagnostic}
      (wrong : error = .notAModule task.cls task.cause ∨
        error = .missingClass task.cls task.cause ∧
          ∃ cls, state.class? task.cls = some cls ∧ cls.isPresent = false) :
      Effect task state (state.extend [] [error])
  | await (new : state.status? task.cls = none) : Effect task state (state.await task.cls [task])
  | park {parked : List Task} (status : state.status? task.cls = some (.awaited parked)) :
      Effect task state (state.setStatus task.cls (.awaited (parked ++ [task])))
  | parkLoaded {summary : Option ClassSummary} {parked : List Task}
      (status : state.status? task.cls = some (.loaded summary parked)) :
      Effect task state (state.setStatus task.cls (.loaded summary (parked ++ [task])))

/-- Some operations that doing the task consists of. -/
abbrev Effects (task : Task) : State → State → Prop :=
  Relation.ReflTransGen (Effect task)

/-- One of the effects by which instances and calls spread to other classes. -/
inductive Spread (task : Task) (state : State) : State → Prop
  | mark {cls : ClassRecord} {ancestor : ClassName} (found : state.class? task.cls = some cls)
      (created : cls.uses.instances = true) (kind : cls.kind.isOrdinary = true)
      (mem : ancestor ∈ cls.ancestors) :
      Spread task state ((state.markInstances ancestor).addInhabited task.cls ancestor)
  | dispatch {upper receiver : ClassName} {record : ClassRecord} {call : MethodName × Cause}
      (found : state.class? upper = some record) (resident : receiver ∈ record.inhabited)
      (noted : call ∈ record.calls) : Spread task state (state.callExact receiver call.1 call.2)
  | again {upper receiver : ClassName} {record : ClassRecord} {call : MethodName × Cause}
      (found : state.class? upper = some record) (resident : receiver ∈ record.inhabited)
      (noted : call ∈ record.calls) (dispatched : state.Dispatched receiver call.1) :
      Spread task state (state.callAgain receiver call.1 call.2)

/-- Some of these effects. -/
abbrev Spreads (task : Task) : State → State → Prop :=
  Relation.ReflTransGen (Spread task)

theorem Spread.effect (spread : Spread task state next) : Effect task state next := by
  cases spread with
  | mark found created kind mem => exact .mark found created kind mem
  | dispatch found resident noted => exact .dispatch found resident noted
  | again found resident noted dispatched => exact .again found resident noted dispatched

theorem Spreads.effects (spreads : Spreads task state next) : Effects task state next :=
  (Relation.ReflTransGen.mono fun _ _ => Spread.effect) _ _ spreads

section

variable (fair : setting.IsFair) (full : ∀ fact, setting.facts fact)

include full

theorem Setting.grants_of_full (name : ClassName) (method : MethodName) :
    setting.Grants name method :=
  fun _ _ _ => full _

theorem Setting.justifies_of_full {tasks : List Task}
    (demands : ∀ task ∈ tasks, ∃ demand, task.action = .fulfil demand) :
    ∀ task ∈ tasks, setting.Justifies task := by
  intro task mem
  obtain ⟨demand, action⟩ := demands task mem
  unfold Setting.Justifies
  rw [action]
  exact full _

include fair

/-- An effect is some changes. -/
theorem Effect.changes (valid : state.Valid setting) (justified : setting.Justifies task)
    (effect : Effect task state next) : Changes setting state next := by
  cases effect with
  | use found present => exact .single (.update found (.use present (full _)))
  | creator found => exact .single (.update found (.creator _))
  | create found present => exact .single (.update found (.use present (full _)))
  | mark found created kind mem =>
    exact Acts.changes (State.acts_mark fair valid found kind created mem).1
  | markJS found created kind =>
    exact Acts.changes (State.acts_createJS fair valid found kind created).1
  | markNative found _ _ notDefined =>
    exact Acts.changes (@State.acts_markInstances _ _ {} _ _ fair valid found (full _) notDefined).1
  | construct =>
    refine .single (.extend [] (Setting.justifies_of_full full fun task mem => ?_))
    rw [List.mem_singleton.1 mem]
    exact ⟨_, rfl⟩
  | note found present notJS => exact .single (.update found (.note present notJS (full _)))
  | dispatch found resident =>
    obtain ⟨receiver, hr, kind, _⟩ := valid.residents found resident
    exact Calls.changes (State.calls_callExact fair valid (Setting.grants_of_full full _ _) hr
      (fun _ => kind) _).1
  | again found resident _ dispatched =>
    obtain ⟨receiver, hr, kind, _⟩ := valid.residents found resident
    exact Calls.changes (State.calls_callAgain fair valid (Setting.grants_of_full full _ _) hr
      (fun _ => kind) dispatched _)
  | exact found asked =>
    have ordinary := justified.isOrdinary asked (valid.follows.links found)
    exact Calls.changes (State.calls_callExact fair valid (Setting.grants_of_full full _ _) found
      (fun _ => ordinary) _).1
  | direct found present =>
    exact Calls.changes (State.calls_callDirect fair valid found present (full _) _).1
  | enter =>
    exact .single (.extend [] (Setting.justifies_of_full full fun _ =>
      State.exists_of_mem_entryTasks))
  | report => exact .single (.extend _ fun _ mem => by cases mem)
  | await new =>
    refine .single (.await new fun _ mem => ?_)
    rw [List.mem_singleton.1 mem]
    exact justified
  | park status => exact .single (.park status justified)
  | parkLoaded status => exact .single (.parkLoaded status justified)

theorem Effects.changes (valid : state.Valid setting) (justified : setting.Justifies task)
    (effects : Effects task state next) : Changes setting state next := by
  induction effects with
  | refl => exact .refl
  | tail _ effect ih =>
    exact ih.trans (effect.changes fair full (Changes.valid fair ih valid) justified)

end

namespace State

/-! ### Operations on linked classes -/

section

variable (found : state.class? name = some cls)

include found

/-- Creating instances once more, or of a class that has none, enters the cause. -/
theorem create_of_idle (idle : (cls.uses.instances || !cls.kind.isInstantiable) = true)
    (cause : Cause) : state.create name cause =
      state.revise name { cls with creators := recordOnce cls.creators cause } [] [] := by
  simp only [revise_nil, create, found, idle, if_true]

/-- Creating instances for the first time says so of the class before anything else. -/
theorem create_of_fresh (fresh : cls.uses.instances = false)
    (kind : cls.kind.isInstantiable = true) (cause : Cause) :
    let source : ClassRecord := { cls with creators := recordOnce cls.creators cause }
    let told := state.revise name (source.addUse .instances) [] []
    state.create name cause =
      if cls.kind.isOrdinary then told.createOrdinary source
      else if cls.kind.isDefinedJS then told.createJS source
      else told.markInstances name := by
  simp only [revise_nil, create, found, fresh, kind]
  rfl

/-- Reading a module for the first time creates its instance, and runs the constructor. -/
theorem readModule_of_fresh (kind : cls.kind.isModule = true) (fresh : cls.uses.module = false)
    (cause : Cause) :
    let created := (state.revise name (cls.addUse .module) [] []).create name cause
    state.readModule name cause =
      if cls.kind.isOrdinary then created.extend [constructorTask name cause] [] else created := by
  simp only [← addTasks_eq, revise_nil, readModule, found, kind, fresh, Bool.not_true,
    Bool.false_eq_true, if_false]
  rfl

theorem readModule_of_read (kind : cls.kind.isModule = true) (read : cls.uses.module = true)
    (cause : Cause) : state.readModule name cause = state := by
  simp only [readModule, found, kind, read, Bool.not_true, Bool.false_eq_true, if_false, if_true]

theorem readModule_of_notModule (kind : cls.kind.isModule = false) (cause : Cause) :
    state.readModule name cause = state.extend [] [.notAModule name cause] := by
  simp only [← report_eq, readModule, found, kind, Bool.not_false, if_true]

/-- A call that is noted already is not noted again, and no call is noted on a class of
JavaScript. -/
theorem callDispatched_of_idle {cause : Cause}
    (idle : (cls.kind.isJS || (method, cause) ∈ cls.calls) = true) :
    state.callDispatched name method cause = state := by
  simp only [callDispatched, found, idle, if_true]

/-- Any other call is noted, and made on instances of all classes below. -/
theorem callDispatched_of_fresh {cause : Cause}
    (fresh : ¬ (cls.kind.isJS || (method, cause) ∈ cls.calls) = true) :
    state.callDispatched name method cause =
      cls.inhabited.foldl
        (fun state below =>
          if cls.calls.any fun call => call.1 = method then state.callAgain below method cause
          else state.callExact below method cause)
        (state.revise name { cls with calls := cls.calls ++ [(method, cause)] } [] []) := by
  simp only [revise_nil, callDispatched, found, fresh]
  rfl

end

/-! ### Operations as effects -/

/-- The class itself says that instances of it are created, and what creates them. -/
theorem effects_addInstances (found : state.class? task.cls = some cls)
    (present : cls.isPresent = true)
    (asked : task.action = .fulfil (.use .instances) ∨
      task.action = .fulfil (.use .module) ∧ cls.uses.module = true)
    (kind : cls.kind.isInstantiable = true) :
    let source : ClassRecord := { cls with creators := recordOnce cls.creators task.cause }
    Effects task state (state.revise task.cls (source.addUse .instances) [] []) := by
  intro source
  let noted := state.revise task.cls source [] []
  have note : Effect task state noted := .creator found (asked.imp_right And.left)
  have foundN : noted.class? task.cls = some source := by rw [class?_revise, if_pos rfl]
  have credited : source.creators ≠ [] := List.ne_nil_of_mem (mem_recordOnce.2 (.inr rfl))
  have create : Effect task noted (noted.revise task.cls (source.addUse .instances) [] []) :=
    .create foundN present (asked.imp_right And.right) kind credited
  have same : noted.revise task.cls (source.addUse .instances) [] [] =
      state.revise task.cls (source.addUse .instances) [] [] := by
    simp only [noted, revise_nil, setClass, setStatus, insert_insert]
  rw [← same]
  exact .tail (.single note) create

section

variable (fair : setting.IsFair) (full : ∀ fact, setting.facts fact) (valid : state.Valid setting)
  (justified : setting.Justifies task) (found : state.class? task.cls = some cls)

include fair full valid justified found

/-- Creating instances of an ordinary class, once the class itself says so. -/
theorem spreads_createOrdinary (kind : cls.kind.isOrdinary = true)
    (uses : cls.uses.instances = true) (source : ClassRecord) (source_name : source.name = task.cls)
    (source_ancestors : source.ancestors = cls.ancestors) :
    Spreads task state (state.createOrdinary source) := by
  unfold createOrdinary
  rw [source_name, source_ancestors]
  obtain ⟨marks, _⟩ := foldl_steps (R := Spread task)
    (f := fun state ancestor => (state.markInstances ancestor).addInhabited task.cls ancestor)
    cls.ancestors state fun s before ancestor mem => by
      have changes := Effects.changes fair full valid justified (Spreads.effects before)
      obtain ⟨still, hs, growth⟩ := (Changes.grows changes).classes found
      exact .single (.mark hs (growth.created uses) (growth.kind_eq ▸ kind)
        (growth.ancestors_eq ▸ mem))
  refine marks.trans ?_
  obtain ⟨acts, clsM, foundM, growthM, knows⟩ := acts_markAll fair valid found kind uses
  generalize cls.ancestors.foldl (fun state ancestor =>
    (state.markInstances ancestor).addInhabited task.cls ancestor) state = marked at *
  have validM := Changes.valid fair (Acts.changes acts) valid
  refine (foldl_steps (R := Spread task)
    (f := fun state (call : MethodName × Cause) => state.callExact task.cls call.1 call.2)
    (marked.callsOn cls.ancestors) marked fun s before call mem => ?_).1
  obtain ⟨record, hr, noted⟩ := List.mem_flatMap.1 mem
  obtain ⟨upper, above, found'⟩ := List.mem_filterMap.1 hr
  obtain ⟨_, foundU, _, resident⟩ :=
    knows.above (growthM.kind_eq ▸ kind) (growthM.ancestors_eq ▸ above)
  obtain rfl := Option.some.inj (found'.symm.trans foundU)
  have changes := Effects.changes fair full validM justified (Spreads.effects before)
  obtain ⟨later, hl, growth⟩ := (Changes.grows changes).classes found'
  exact .single (.dispatch hl (growth.inhabited.subset resident) (growth.calls.subset noted))

/-- What creating instances for the first time does after the class itself says so. -/
theorem effects_create_told (present : cls.isPresent = true)
    (asked : task.action = .fulfil (.use .instances) ∨
      task.action = .fulfil (.use .module) ∧ cls.uses.module = true)
    (fresh : cls.uses.instances = false) (kind : cls.kind.isInstantiable = true) :
    let source : ClassRecord := { cls with creators := recordOnce cls.creators task.cause }
    Effects task (state.revise task.cls (source.addUse .instances) [] [])
      (state.create task.cls task.cause) := by
  intro source
  let told := state.revise task.cls (source.addUse .instances) [] []
  have tells : Effects task state told := effects_addInstances found present asked kind
  have validT := Changes.valid fair (Effects.changes fair full valid justified tells) valid
  have foundT : told.class? task.cls = some (source.addUse .instances) := by
    rw [class?_revise, if_pos rfl]
  rw [create_of_fresh found fresh kind]
  by_cases ordinary : cls.kind.isOrdinary = true
  · rw [if_pos ordinary]
    exact Spreads.effects (spreads_createOrdinary fair full validT justified foundT ordinary rfl
      source (show cls.name = task.cls from valid.follows.name_eq found) rfl)
  · rw [if_neg ordinary]
    by_cases defined : cls.kind.isDefinedJS = true
    · rw [if_pos defined]
      show Effects task told (told.createJS (source.addUse .instances))
      exact .single (.markJS foundT rfl defined)
    · rw [if_neg defined]
      exact .single (.markNative foundT rfl (Bool.eq_false_iff.2 ordinary)
        (Bool.eq_false_iff.2 defined))

theorem effects_create (present : cls.isPresent = true)
    (asked : task.action = .fulfil (.use .instances) ∨
      task.action = .fulfil (.use .module) ∧ cls.uses.module = true) :
    Effects task state (state.create task.cls task.cause) := by
  by_cases known : (cls.uses.instances || !cls.kind.isInstantiable) = true
  · rw [create_of_idle found known]
    exact .single (.creator found (asked.imp_right And.left))
  · have fresh : cls.uses.instances = false ∧ cls.kind.isInstantiable = true := by
      simpa using known
    exact (effects_addInstances found present asked fresh.2).trans
      (effects_create_told fair full valid justified found present asked fresh.1 fresh.2)

theorem effects_readModule (present : cls.isPresent = true)
    (asked : task.action = .fulfil (.use .module)) :
    Effects task state (state.readModule task.cls task.cause) := by
  cases kind : cls.kind.isModule with
  | false =>
    rw [readModule_of_notModule found kind]
    exact .single (.report (.inl rfl))
  | true =>
    cases read : cls.uses.module with
    | true => rw [readModule_of_read found kind read]
    | false =>
      let told := state.revise task.cls (cls.addUse .module) [] []
      have tell : Effect task state told :=
        .use found present asked (fun h => by cases h) fun _ => kind
      have validT := Changes.valid fair (tell.changes fair full valid justified) valid
      have foundT : told.class? task.cls = some (cls.addUse .module) := by
        rw [class?_revise, if_pos rfl]
      have creates : Effects task told (told.create task.cls task.cause) :=
        effects_create fair full validT justified foundT present (.inr ⟨asked, rfl⟩)
      obtain ⟨record, foundR, growth⟩ :=
        (Changes.grows (Effects.changes fair full validT justified creates)).classes foundT
      rw [readModule_of_fresh found kind read]
      refine (Relation.ReflTransGen.head tell creates).trans ?_
      split
      · rename_i ordinary
        exact .single (.construct foundR asked (growth.read rfl) (growth.kind_eq ▸ ordinary))
      · exact .refl

/-- A call that is noted spreads to all classes below. -/
theorem spreads_callDispatched (consistent : state.Consistent) (present : cls.isPresent = true)
    (asked : task.action = .fulfil (.call method))
    (fresh : ¬ (cls.kind.isJS || (method, task.cause) ∈ cls.calls) = true) :
    let noted := state.revise task.cls
      { cls with calls := cls.calls ++ [(method, task.cause)] } [] []
    Effect task state noted ∧
      Spreads task noted (state.callDispatched task.cls method task.cause) := by
  intro noted
  have notJS : cls.kind.isJS = false := by
    revert fresh; cases cls.kind.isJS <;> simp
  have note : Effect task state noted := .note found present notJS asked
  have early := note.changes fair full valid justified
  have validN := Changes.valid fair early valid
  have foundN : noted.class? task.cls =
      some { cls with calls := cls.calls ++ [(method, task.cause)] } := by
    rw [class?_revise, if_pos rfl]
  rw [callDispatched_of_fresh found fresh]
  refine ⟨note, (foldl_steps (R := Spread task) cls.inhabited noted
    fun s before below mem => ?_).1⟩
  have changes := Effects.changes fair full validN justified (Spreads.effects before)
  obtain ⟨upper, foundS, growth⟩ := (Changes.grows changes).classes foundN
  have resident : below ∈ upper.inhabited := growth.inhabited.subset mem
  have last : (method, task.cause) ∈ upper.calls :=
    growth.calls.subset (List.mem_append_right _ List.mem_cons_self)
  split
  · rename_i again
    obtain ⟨earlier, hm, h⟩ := List.any_eq_true.1 again
    obtain ⟨receiver, hr, _⟩ := valid.residents found mem
    have dispatched := consistent.dispatched found mem hm
    rw [of_decide_eq_true h] at dispatched
    have dispatched := Changes.dispatched fair valid (early.trans changes) hr dispatched
    exact .single (@Spread.again _ _ _ _ _ (method, task.cause) foundS resident last dispatched)
  · exact .single (@Spread.dispatch _ _ _ _ _ (method, task.cause) foundS resident last)

theorem effects_callDispatched (consistent : state.Consistent) (present : cls.isPresent = true)
    (asked : task.action = .fulfil (.call method)) :
    Effects task state (state.callDispatched task.cls method task.cause) := by
  by_cases idle : (cls.kind.isJS || (method, task.cause) ∈ cls.calls) = true
  · rw [callDispatched_of_idle found idle]
  · obtain ⟨note, spreads⟩ :=
      spreads_callDispatched fair full valid justified found consistent present asked idle
    exact .head note (Spreads.effects spreads)

/-- Doing a task for a class that exists. -/
theorem effects_act (consistent : state.Consistent) (present : cls.isPresent = true) :
    Effects task state (state.act cls task.action task.cause) := by
  have name_eq := valid.follows.name_eq found
  cases action : task.action with
  | fulfil demand =>
    cases demand with
    | use use =>
      have plain : use ≠ .instances → use ≠ .module →
          Effects task state (state.modifyClass task.cls fun cls => cls.addUse use) := by
        intro notInstances notModule
        have same : (state.modifyClass task.cls fun cls => cls.addUse use) =
            state.revise task.cls (cls.addUse use) [] [] := by
          rw [revise_nil]
          simp only [modifyClass, found]
        rw [same]
        exact .single (.use found present action notInstances fun h => absurd h notModule)
      simp only [act, name_eq]
      cases use with
      | instances => exact effects_create fair full valid justified found present (.inl action)
      | module => exact effects_readModule fair full valid justified found present action
      | tests | typeData | staticFields | privateFields => exact plain (by simp) (by simp)
    | call method =>
      simp only [act, name_eq]
      exact effects_callDispatched fair full valid justified found consistent present action
    | callDirect key =>
      simp only [act, name_eq]
      exact .single (.direct found present action)
  | callExact method =>
    simp only [act, name_eq]
    exact .single (.exact found action)
  | enter =>
    simp only [act, addTasks_eq]
    exact .single (.enter found action)

end

/-- Doing a task is a sequence of effects. -/
theorem effects_perform (fair : setting.IsFair) (full : ∀ fact, setting.facts fact)
    (valid : state.Valid setting) (consistent : state.Consistent)
    (justified : setting.Justifies task) : Effects task state (state.perform task) := by
  cases h : state.status? task.cls with
  | none =>
    simp only [perform, h]
    exact .single (.await h)
  | some status =>
    cases status with
    | awaited parked =>
      simp only [perform, h]
      exact .single (.park h)
    | loaded summary parked =>
      simp only [perform, h]
      exact .single (.parkLoaded h)
    | failed =>
      simp only [perform, h]
      exact .refl
    | linked cls =>
      cases present : cls.isPresent with
      | true =>
        simp only [perform, h, present, if_true]
        exact effects_act fair full valid justified (class?_eq_some.2 h) consistent present
      | false =>
        simp only [perform, h, present, Bool.false_eq_true, if_false, report_eq]
        split
        · exact .refl
        · exact .single (.report (.inr ⟨rfl, cls, class?_eq_some.2 h, present⟩))

/-! ### Effects on methods -/

/-- No method becomes reachable, and none is reported as missing. -/
structure Quiet (before after : State) : Prop where
  methods : ∀ {id entry}, after.method? id = some entry → entry.isReached = true →
    before.method? id = some entry
  silent : ∀ {id cause}, .missingMethod id cause ∈ after.errors →
    .missingMethod id cause ∈ before.errors

theorem Quiet.refl (state : State) : state.Quiet state := ⟨fun h _ => h, id⟩

theorem Quiet.trans {first second third : State} (early : first.Quiet second)
    (late : second.Quiet third) : first.Quiet third :=
  ⟨fun h reached => early.methods (late.methods h reached) reached,
    fun mem => early.silent (late.silent mem)⟩

theorem Quiet.extend (tasks : List Task) {errors : List Diagnostic} (silent : Silent errors) :
    state.Quiet (state.extend tasks errors) :=
  ⟨fun h _ => h, fun mem => (List.mem_append.1 mem).resolve_right (silent _ _)⟩

/-- A class that is linked brings no reachable methods. -/
theorem Quiet.link {tasks : List Task} {errors : List Diagnostic} (fresh_eq : record.fresh = record)
    (silent : Silent errors) : state.Quiet (state.revise name record tasks errors) := by
  refine ⟨fun {id entry} h reached => ?_, fun mem =>
    (List.mem_append.1 mem).resolve_right (silent _ _)⟩
  rw [← h]
  unfold method? at h ⊢
  rw [class?_revise] at h ⊢
  split at h
  · rw [(ClassRecord.silent_of_fresh fresh_eq).2.2.2 h] at reached
    cases reached
  · rename_i ne
    rw [if_neg ne]

/-- The status of a class that is not linked changes. -/
theorem Quiet.setStatus {status : Status} (before : state.class? name = none)
    (after : status.record? = none) : state.Quiet (state.setStatus name status) := by
  refine ⟨fun {id entry} h _ => ?_, id⟩
  unfold method? at h ⊢
  rwa [class?_setStatus before after] at h

theorem Quiet.failCycle {classes : List ClassName} (closing : ClassName)
    (loaded : ∀ name ∈ classes,
      ∃ summary parked, state.status? name = some (.loaded (some summary) parked)) :
    state.Quiet (state.failCycle classes closing) := by
  refine ⟨fun {id entry} h _ => ?_, fun mem => ?_⟩
  · unfold method? at h ⊢
    rwa [class?_failCycle _ loaded] at h
  · rw [errors_failCycle] at mem
    exact (List.mem_append.1 mem).resolve_right (by simp)

theorem Quiet.await (unlinked : state.class? name = none) {parked : List Task} :
    state.Quiet (state.await name parked) := by
  have quiet : state.Quiet (state.setStatus name (.awaited parked)) := .setStatus unlinked rfl
  exact ⟨quiet.methods, quiet.silent⟩

theorem Quiet.receive (unlinked : state.class? name = none) (summary : Option ClassSummary) :
    state.Quiet (state.receive name summary) := by
  obtain ⟨parked, same, _⟩ := state.receive_eq name summary
  have quiet : state.Quiet (state.setStatus name (.loaded summary parked)) :=
    .setStatus unlinked rfl
  rw [same]
  exact ⟨quiet.methods, quiet.silent⟩

theorem markInstances_cases (state : State) (name : ClassName) :
    state.markInstances name = state ∨ ∃ cls, state.class? name = some cls ∧
      cls.hasInstances = false ∧ state.markInstances name =
        state.revise name { cls with hasInstances := true } (instanceTasks cls) [] := by
  unfold markInstances
  cases found : state.class? name with
  | none => exact .inl rfl
  | some cls =>
    cases has : cls.hasInstances with
    | true => exact .inl (by simp [has])
    | false => exact .inr ⟨cls, rfl, has, by simp [has, addTasks, revise, setClass, setStatus]⟩

theorem addInhabited_cases (state : State) (name ancestor : ClassName) :
    state.addInhabited name ancestor = state ∨ ∃ cls, state.class? ancestor = some cls ∧
      state.addInhabited name ancestor =
        state.revise ancestor { cls with inhabited := cls.inhabited ++ [name] } [] [] := by
  unfold addInhabited modifyClass
  cases found : state.class? ancestor with
  | none => exact .inl rfl
  | some cls => exact .inr ⟨cls, rfl, by rw [revise_nil]⟩

end State

/-! ### Strokes -/

/-- One more thing is known of a class that is not about its methods. -/
inductive ClassRecord.Learns (cls : ClassRecord) : ClassRecord → Prop
  | use (use : Use) : cls.Learns (cls.addUse use)
  | creator (cause : Cause) :
      cls.Learns { cls with creators := recordOnce cls.creators cause }
  | instances : cls.Learns { cls with hasInstances := true }
  | inhabit (name : ClassName) : cls.Learns { cls with inhabited := cls.inhabited ++ [name] }
  | note (call : MethodName × Cause) : cls.Learns { cls with calls := cls.calls ++ [call] }

theorem ClassRecord.Learns.methods_eq (learns : cls.Learns record) :
    record.methods = cls.methods := by
  cases learns <;> rfl

/-- What is learned of a class leaves the methods alone. -/
theorem ClassRecord.Learns.method?_eq (learns : cls.Learns record)
    (found : state.class? name = some cls) (tasks : List Task) (errors : List Diagnostic) :
    (state.revise name record tasks errors).method? = state.method? := by
  funext id
  unfold State.method?
  rw [State.class?_revise]
  by_cases same : name = id.owner
  · subst same
    simp [found, ClassRecord.method?, learns.methods_eq]
  · rw [if_neg same]

/-- The simplest of the changes that doing a task makes, apart from calls. -/
inductive Stroke (task : Task) (state : State) : State → Prop
  | learn {name : ClassName} {cls record : ClassRecord} {tasks : List Task}
      (found : state.class? name = some cls) (learns : cls.Learns record) :
      Stroke task state (state.revise name record tasks [])
  | extend (tasks : List Task) : Stroke task state (state.extend tasks [])
  | report {error : Diagnostic}
      (wrong : error = .notAModule task.cls task.cause ∨
        error = .missingClass task.cls task.cause ∧
          ∃ cls, state.class? task.cls = some cls ∧ cls.isPresent = false) :
      Stroke task state (state.extend [] [error])
  | await (new : state.status? task.cls = none) : Stroke task state (state.await task.cls [task])
  | park {parked : List Task} (status : state.status? task.cls = some (.awaited parked)) :
      Stroke task state (state.setStatus task.cls (.awaited (parked ++ [task])))
  | parkLoaded {summary : Option ClassSummary} {parked : List Task}
      (status : state.status? task.cls = some (.loaded summary parked)) :
      Stroke task state (state.setStatus task.cls (.loaded summary (parked ++ [task])))

/-- Some of these changes. -/
abbrev Strokes (task : Task) : State → State → Prop :=
  Relation.ReflTransGen (Stroke task)

theorem State.strokes_markInstances (state : State) (name : ClassName) :
    Strokes task state (state.markInstances name) := by
  rcases state.markInstances_cases name with same | ⟨cls, found, _, same⟩
  · rw [same]
  · rw [same]
    exact .single (.learn found .instances)

theorem State.strokes_addInhabited (state : State) (name ancestor : ClassName) :
    Strokes task state (state.addInhabited name ancestor) := by
  rcases state.addInhabited_cases name ancestor with same | ⟨cls, found, same⟩
  · rw [same]
  · rw [same]
    exact .single (.learn found (.inhabit name))

/-- An effect consists of strokes, or is a call that lands somewhere. -/
theorem Effect.strokes_or_lands (fair : setting.IsFair) (valid : state.Valid setting)
    (justified : setting.Justifies task) (effect : Effect task state next) :
    Strokes task state next ∨ ∃ name key cause, state.Lands name key cause next := by
  cases effect with
  | use found => exact .inl (.single (.learn found (.use _)))
  | creator found => exact .inl (.single (.learn found (.creator _)))
  | create found => exact .inl (.single (.learn found (.use _)))
  | note found => exact .inl (.single (.learn found (.note _)))
  | mark => exact .inl ((State.strokes_markInstances ..).trans (State.strokes_addInhabited ..))
  | markJS =>
    simp only [State.createJS, State.addTasks_eq]
    exact .inl (.head (.extend _) (.tail (State.strokes_markInstances ..) (.extend _)))
  | markNative => exact .inl (State.strokes_markInstances ..)
  | construct | enter => exact .inl (.single (.extend _))
  | report wrong => exact .inl (.single (.report wrong))
  | dispatch found resident =>
    exact .inr ⟨_, _, _, State.lands_noted fair valid found resident _ _⟩
  | again found resident _ dispatched =>
    exact .inr ⟨_, _, _, State.lands_notedAgain fair valid found resident dispatched _⟩
  | exact found asked =>
    exact .inr ⟨_, _, _, State.lands_exact fair valid found justified asked _⟩
  | direct found => exact .inr ⟨_, _, _, State.lands_callDirect fair valid found _ _⟩
  | await new => exact .inl (.single (.await new))
  | park status => exact .inl (.single (.park status))
  | parkLoaded status => exact .inl (.single (.parkLoaded status))

theorem State.method?_of_class?_eq (same : next.class? = state.class?) :
    next.method? = state.method? := by
  funext id
  unfold method?
  rw [same]

/-- Strokes leave the methods alone. -/
theorem Stroke.method?_eq (stroke : Stroke task state next) : next.method? = state.method? := by
  cases stroke with
  | learn found learns => exact learns.method?_eq found _ _
  | extend | report => rfl
  | await new =>
    exact State.method?_of_class?_eq (State.class?_setStatus (State.class?_eq_none_of_new new) rfl)
  | park status | parkLoaded status =>
    exact State.method?_of_class?_eq
      (State.class?_setStatus (State.class?_eq_none_of_status status rfl) rfl)

theorem Strokes.method?_eq (strokes : Strokes task state next) : next.method? = state.method? := by
  induction strokes with
  | refl => rfl
  | tail _ stroke ih => rw [stroke.method?_eq, ih]

theorem Stroke.quiet (stroke : Stroke task state next) : state.Quiet next := by
  refine ⟨fun h _ => by rwa [stroke.method?_eq] at h, fun mem => ?_⟩
  cases stroke with
  | learn | extend => simpa [State.revise, State.extend] using mem
  | report wrong =>
    rcases List.mem_append.1 mem with before | new
    · exact before
    · rcases wrong with rfl | ⟨rfl, _⟩ <;> simp at new
  | await | park | parkLoaded => exact mem

theorem Strokes.quiet (strokes : Strokes task state next) : state.Quiet next := by
  induction strokes with
  | refl => exact .refl _
  | tail _ stroke ih => exact ih.trans stroke.quiet

end ClassLinker
