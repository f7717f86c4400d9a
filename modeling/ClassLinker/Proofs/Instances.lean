import ClassLinker.Proofs.Acts

/-!
# Creating instances

`State.create` as steps within a scope. The instances of an ordinary class are marked on all its
ancestors first, and then the calls noted there are dispatched in the class
(`State.heeds_createOrdinary`); those of a JavaScript class are marked on the class itself
(`State.acts_createJS`). `State.Heeds` says of some steps that they see to everything that their
scope lets happen: every call that is noted by then has been `Made`.
-/

namespace ClassLinker

variable {setting : Setting} {state next : State} {scope : Scope}
variable {name other : ClassName} {cls record : ClassRecord} {task : Task}

/-- On the way from one state to another, the call has been made on instances of exactly the class:
it has been dispatched, or made again after the method had been dispatched there. -/
structure State.Made (setting : Setting) (before after : State) (receiver : ClassName)
    (call : MethodName × Cause) : Prop where
  made : ∃ middle cls, Changes setting before middle ∧ middle.class? receiver = some cls ∧
    (setting.allow = true → cls.kind.isOrdinary = true) ∧
      (Changes setting (middle.callExact receiver call.1 call.2) after ∨
        middle.Dispatched receiver call.1 ∧
          Changes setting (middle.callAgain receiver call.1 call.2) after)
  grants : setting.Grants receiver call.1

/-- A call that has been made is dispatched. -/
theorem State.Made.dispatched {call : MethodName × Cause} (fair : setting.IsFair)
    (valid : state.Valid setting) (made : State.Made setting state next name call) :
    next.Dispatched name call.1 := by
  obtain ⟨⟨middle, cls, early, found, kind, late⟩, grants⟩ := made
  have valid' := Changes.valid fair early valid
  rcases late with late | ⟨dispatched, late⟩
  · obtain ⟨calls, dispatched⟩ := calls_callExact fair valid' grants found kind call.2
    obtain ⟨record, found', _⟩ := (Changes.grows calls.changes).classes found
    exact Changes.dispatched fair (Changes.valid fair calls.changes valid') late found' dispatched
  · have calls := calls_callAgain fair valid' grants found kind dispatched call.2
    exact Changes.dispatched fair valid' (calls.changes.trans late) found dispatched

/-- It stays made if the way is longer. -/
theorem State.Made.extend {first last : State} {call : MethodName × Cause}
    (early : Changes setting first state) (made : State.Made setting state next name call)
    (late : Changes setting next last) : State.Made setting first last name call := by
  obtain ⟨⟨middle, cls, begins, found, kind, ends⟩, grants⟩ := made
  refine ⟨⟨middle, cls, early.trans begins, found, kind, ?_⟩, grants⟩
  exact ends.imp (fun steps => steps.trans late) (And.imp_right fun steps => steps.trans late)

/-- The steps see to what they bring up: new instances are known above, and calls made. -/
structure State.Heeds (setting : Setting) (scope : Scope) (before after : State) : Prop where
  acts : Acts setting scope before after
  created : ∀ {name cls}, after.class? name = some cls → scope.created name →
    after.KnowsInstances name cls
  made : ∀ {name cls other call}, after.class? name = some cls → other ∈ cls.inhabited →
    call ∈ cls.calls → scope.created other ∨ scope.noted name call →
      State.Made setting before after other call

/-- Steps in whose scope there is nothing to see to. -/
theorem State.Heeds.of_acts_empty (acts : Acts setting {} state next) :
    state.Heeds setting {} next :=
  ⟨acts, fun _ h => h.elim, fun _ _ _ h => h.elim False.elim False.elim⟩

theorem Act.mono {wider : Scope} (created : ∀ name, scope.created name → wider.created name)
    (read : ∀ name, scope.read name → wider.read name)
    (noted : ∀ name call, scope.noted name call → wider.noted name call)
    (act : Act setting scope state next) : Act setting wider state next := by
  cases act with
  | update found update within =>
    exact .update found update ⟨fun h => (within.created h).imp_right (created _),
      fun h => (within.read h).imp_right (read _),
      fun other mem => (within.residents other mem).imp_right (created _),
      fun call mem => (within.calls call mem).imp_right (noted _ _)⟩
  | extend errors justified => exact .extend errors justified

theorem Acts.mono {wider : Scope} (created : ∀ name, scope.created name → wider.created name)
    (read : ∀ name, scope.read name → wider.read name)
    (noted : ∀ name call, scope.noted name call → wider.noted name call)
    (acts : Acts setting scope state next) : Acts setting wider state next :=
  (Relation.ReflTransGen.mono fun _ _ => Act.mono created read noted) _ _ acts

/-- New tasks bring up nothing to see to. -/
theorem State.Heeds.extend (heeds : state.Heeds setting scope next) {tasks : List Task}
    (justified : ∀ task ∈ tasks, setting.Justifies task) :
    state.Heeds setting scope (next.extend tasks []) := by
  have extends_ : Change setting next (next.extend tasks []) := .extend [] justified
  refine ⟨heeds.acts.tail (.extend [] justified), fun found created => ?_,
    fun found resident noted new => ?_⟩
  · exact (heeds.created found created).grows extends_.grows (.refl _)
  · exact (heeds.made found resident noted new).extend .refl (.single extends_)

/-- The empty scope is within every other one. -/
theorem Acts.of_empty (acts : Acts setting {} state next) : Acts setting scope state next :=
  acts.mono (fun _ => False.elim) (fun _ => False.elim) fun _ _ => False.elim

/-! ### Tasks of instances -/

theorem Demands.justifies_tasks {demands : Demands} {cause : Cause}
    (asked : ∀ {other demand}, (other, demand) ∈ demands.toList →
      setting.facts (.asked other demand)) (mem : task ∈ demands.tasks cause) :
    setting.Justifies task := by
  obtain ⟨demand, mem, same⟩ := Demands.mem_tasks.1 mem
  rw [same]
  exact asked mem

section

variable (fair : setting.IsFair) (valid : state.Valid setting)
  (found : state.class? name = some cls) (fact : setting.facts (.inhabited name))

include fair valid found fact

theorem State.justifies_exportedMemberTasks (mem : task ∈ State.exportedMemberTasks cls) :
    setting.Justifies task := by
  unfold State.exportedMemberTasks at mem
  split at mem
  · cases mem
  · rename_i summary known
    obtain ⟨member, hm, mem⟩ := List.mem_flatMap.1 mem
    have linked := valid.follows.classes_eq found
    exact Demands.justifies_tasks
      (fun demands => fair.closed _ (.member fact linked known hm demands)) mem

theorem State.justifies_instanceTasks (mem : task ∈ State.instanceTasks cls) :
    setting.Justifies task := by
  unfold State.instanceTasks at mem
  split at mem
  · cases mem
  · rename_i summary known
    rcases List.mem_append.1 mem with mem | mem
    · split at mem
      · cases mem
      · exact justifies_exportedMemberTasks fair valid found fact mem
    · obtain ⟨field, hf, rfl⟩ := List.mem_map.1 mem
      exact fair.closed _ (.fieldData fact (valid.follows.classes_eq found) known hf)

/-- Marking the instances of a class that is no defined JavaScript class. -/
theorem State.acts_markInstances (kind : cls.kind.isDefinedJS = false) :
    Acts setting scope state (state.markInstances name) ∧
      ∃ record, (state.markInstances name).class? name = some record ∧
        record.hasInstances = true := by
  unfold markInstances
  simp only [found]
  cases has : cls.hasInstances with
  | true => exact ⟨.refl, cls, found, has⟩
  | false =>
    have within : cls.Within scope { cls with hasInstances := true } :=
      ⟨.inl, .inl, fun _ => .inl, fun _ => .inl⟩
    have update : Update setting state cls { cls with hasInstances := true } (instanceTasks cls)
        [] := by
      refine .instances (valid.follows.name_eq found ▸ fact)
        (fun task mem => justifies_instanceTasks fair valid found fact mem) fun task mem => ?_
      refine List.mem_append_right _ ?_
      rw [ClassRecord.instanceDues, if_neg (Bool.eq_false_iff.1 kind), List.nil_append] at mem
      rcases List.mem_append.1 mem with mem | mem
      · exact mem
      · unfold instanceTasks
        unfold exportedMemberTasks at mem ⊢
        split at mem
        · cases mem
        · rename_i summary known
          simp only [kind, Bool.false_eq_true, if_false]
          exact List.mem_append_left _ mem
    have same : (state.setClass name { cls with hasInstances := true }).addTasks
        (instanceTasks cls) =
          state.revise name { cls with hasInstances := true } (instanceTasks cls) [] := by
      simp [revise, addTasks, setClass, setStatus]
    simp only [Bool.false_eq_true, if_false, same]
    refine ⟨.single (.update found update within), { cls with hasInstances := true }, ?_, rfl⟩
    rw [class?_revise, if_pos rfl]

end

/-! ### Instances of ordinary classes -/

theorem State.revise_nil (state : State) (name : ClassName) (cls : ClassRecord) :
    state.revise name cls [] [] = state.setClass name cls := by
  simp [revise, setClass, setStatus]

/-- Noting the instances of an ordinary class on one of its ancestors. -/
theorem State.acts_mark (fair : setting.IsFair) (valid : state.Valid setting)
    (found : state.class? name = some cls) (kind : cls.kind.isOrdinary = true)
    (uses : cls.uses.instances = true) {ancestor : ClassName} (mem : ancestor ∈ cls.ancestors) :
    let after := (state.markInstances ancestor).addInhabited name ancestor
    Acts setting { created := (· = name) } state after ∧
      ∃ record, after.class? ancestor = some record ∧ record.hasInstances = true ∧
        name ∈ record.inhabited := by
  intro after
  obtain ⟨above, found'⟩ := valid.follows.ancestor found mem
  obtain rfl := valid.follows.name_eq found
  have created := (valid.classes found).created uses
  have fact : setting.facts (.inhabited ancestor) :=
    fair.closed _ (.inhabitedAbove created (valid.follows.classes_eq found) kind mem)
  have notJS : above.kind.isDefinedJS = false := by
    have kinds := (valid.follows.links found).kind_of_mem fair.rooted (.inl kind)
      (valid.follows.links found') mem
    have kinds : ancestor = cls.name ∨ above.kind = .plain ∨ above.kind = .interface := kinds
    rcases kinds with rfl | h | h
    · obtain rfl := Option.some.inj (found.symm.trans found')
      exact ClassKind.isDefinedJS_of_isOrdinary kind
    · rw [h]; rfl
    · rw [h]; rfl
  obtain ⟨marks, marked, hm, has⟩ := acts_markInstances fair valid found' fact notJS
  have grows := Changes.grows (Acts.changes marks)
  have validM := Changes.valid fair (Acts.changes marks) valid
  obtain ⟨still, hs, growth⟩ := grows.classes found
  obtain ⟨marked', hm', growthM⟩ := grows.classes found'
  obtain rfl := Option.some.inj (hm.symm.trans hm')
  let resident : ClassRecord := { marked with inhabited := marked.inhabited ++ [cls.name] }
  have update : Update setting (state.markInstances ancestor) marked resident [] [] := by
    refine .inhabit hs (growth.kind_eq ▸ kind) (growth.created uses) ?_
    rw [growth.ancestors_eq, validM.follows.name_eq hm]
    exact mem
  have within : marked.Within { created := (· = cls.name) } resident := by
    refine ⟨.inl, .inl, fun other mem => ?_, fun _ => .inl⟩
    exact (List.mem_append.1 mem).imp_right List.mem_singleton.1
  have same : after = (state.markInstances ancestor).revise ancestor resident [] [] := by
    rw [revise_nil]
    simp only [after, addInhabited, modifyClass, hm, resident]
  rw [same]
  refine ⟨marks.tail (.update hm update within), resident, ?_, has, ?_⟩
  · rw [class?_revise, if_pos rfl]
  · exact List.mem_append_right _ List.mem_cons_self

/-- Without bridges and proxies, a call on an ancestor reaches the implementation for the class. -/
theorem State.Valid.grants (valid : state.Valid setting) (fair : setting.IsFair)
    (found : state.class? name = some cls) (kind : cls.kind.isOrdinary = true)
    (uses : cls.uses.instances = true) {upper : ClassName} (mem : upper ∈ cls.ancestors)
    (found' : state.class? upper = some record) {call : MethodName × Cause}
    (noted : call ∈ record.calls) : setting.Grants name call.1 := by
  intro _ owner implements_
  obtain rfl := valid.follows.name_eq found
  obtain rfl := valid.follows.name_eq found'
  obtain ⟨present, notJS, asked⟩ := (valid.classes found').calls noted
  exact fair.closed _ (.dispatched asked (valid.follows.classes_eq found') present notJS
    ((valid.classes found).created uses) (valid.follows.classes_eq found) kind mem implements_)

/-- Noting the instances of an ordinary class on all its ancestors. -/
theorem State.acts_markAll (fair : setting.IsFair) (valid : state.Valid setting)
    (found : state.class? name = some cls) (kind : cls.kind.isOrdinary = true)
    (uses : cls.uses.instances = true) :
    let marked := cls.ancestors.foldl
      (fun state ancestor => (state.markInstances ancestor).addInhabited name ancestor) state
    Acts setting { created := (· = name) } state marked ∧
      ∃ record, marked.class? name = some record ∧ cls.Grows record ∧
        marked.KnowsInstances name record := by
  intro marked
  have mark : ∀ s, Acts setting { created := (· = name) } state s → ∀ ancestor ∈ cls.ancestors,
      let after := (s.markInstances ancestor).addInhabited name ancestor
      Acts setting { created := (· = name) } s after ∧
        ∃ record, after.class? ancestor = some record ∧ record.hasInstances = true ∧
          name ∈ record.inhabited := by
    intro s before ancestor mem
    have valid' := Changes.valid fair (Acts.changes before) valid
    obtain ⟨still, hs, growth⟩ := (Changes.grows (Acts.changes before)).classes found
    exact acts_mark fair valid' hs (growth.kind_eq ▸ kind) (growth.created uses)
      (growth.ancestors_eq ▸ mem)
  obtain ⟨marks, each⟩ := foldl_steps cls.ancestors state fun s before ancestor mem =>
    (mark s before ancestor mem).1
  obtain ⟨record, hr, growth⟩ := (Changes.grows (Acts.changes marks)).classes found
  refine ⟨marks, record, hr, growth, ?_⟩
  unfold KnowsInstances
  rw [growth.kind_eq, if_pos kind, growth.ancestors_eq]
  intro ancestor mem
  obtain ⟨s, early, late⟩ := each ancestor mem
  obtain ⟨_, above, ha, has, resides⟩ := mark s early ancestor mem
  obtain ⟨later, hl, growth⟩ := (Changes.grows (Acts.changes late)).classes ha
  exact ⟨later, hl, growth.hasInstances has, growth.inhabited.subset resides⟩

/-- Creating instances of an ordinary class, once the class itself says so. -/
theorem State.heeds_createOrdinary (fair : setting.IsFair) (valid : state.Valid setting)
    (found : state.class? name = some cls) (kind : cls.kind.isOrdinary = true)
    (uses : cls.uses.instances = true) (source : ClassRecord) (source_name : source.name = name)
    (source_ancestors : source.ancestors = cls.ancestors) :
    state.Heeds setting { created := (· = name) } (state.createOrdinary source) := by
  let marked := cls.ancestors.foldl
    (fun state ancestor => (state.markInstances ancestor).addInhabited name ancestor) state
  let final := (marked.callsOn cls.ancestors).foldl
    (fun state call => state.callExact name call.1 call.2) marked
  have same : state.createOrdinary source = final := by
    simp only [createOrdinary, source_name, source_ancestors, final, marked]
  obtain ⟨marks, clsM, foundM, growthM, knows⟩ := acts_markAll fair valid found kind uses
  have validM := Changes.valid fair (Acts.changes marks) valid
  have kindM : clsM.kind.isOrdinary = true := growthM.kind_eq ▸ kind
  have usesM := growthM.created uses
  -- A call that has been noted on an ancestor is made, whatever has been dispatched before.
  have grants : ∀ call ∈ marked.callsOn cls.ancestors, setting.Grants name call.1 := by
    intro call mem
    obtain ⟨record, hr, noted⟩ := List.mem_flatMap.1 mem
    obtain ⟨upper, above, found'⟩ := List.mem_filterMap.1 hr
    exact validM.grants fair foundM kindM usesM (growthM.ancestors_eq ▸ above) found' noted
  obtain ⟨calls, each⟩ := foldl_steps (marked.callsOn cls.ancestors) marked
    fun s (before : Calls setting marked s) call mem => by
      obtain ⟨still, hs, growth⟩ := (Changes.grows before.changes).classes foundM
      exact (calls_callExact fair (Changes.valid fair before.changes validM) (grants call mem) hs
        (fun _ => growth.kind_eq ▸ kindM) call.2).1
  obtain ⟨clsF, foundF, growthF⟩ := (Changes.grows (Calls.changes calls)).classes foundM
  rw [same]
  refine ⟨marks.trans (Calls.acts calls), fun {other record} found' created => ?_,
    fun {upper record other noted} found' resident mem new => ?_⟩
  · obtain rfl : other = name := created
    obtain rfl := Option.some.inj (foundF.symm.trans found')
    exact knows.grows (Changes.grows (Calls.changes calls)) growthF
  · obtain rfl : other = name := new.resolve_right False.elim
    -- The class that the call has been noted on has been in the search for calls.
    have validF := Changes.valid fair (Calls.changes calls) validM
    obtain ⟨below, hb, _, _, above⟩ := validF.residents found' resident
    obtain rfl := Option.some.inj (foundF.symm.trans hb)
    obtain ⟨before, hbefore, same_calls, _⟩ := Calls.found_before calls found'
    have listed : noted ∈ marked.callsOn cls.ancestors := by
      refine List.mem_flatMap.2
        ⟨before, List.mem_filterMap.2 ⟨upper, ?_, hbefore⟩, same_calls ▸ mem⟩
      rw [← growthM.ancestors_eq, ← growthF.ancestors_eq]
      exact above
    obtain ⟨s, early, late⟩ := each noted listed
    obtain ⟨still, hs, growth⟩ := (Changes.grows (Calls.changes early)).classes foundM
    exact ⟨⟨s, still, (Acts.changes marks).trans (Calls.changes early), hs,
      fun _ => growth.kind_eq ▸ kindM, .inl (Calls.changes late)⟩, grants noted listed⟩

/-! ### Instances of JavaScript classes -/

theorem State.addTasks_eq (state : State) (tasks : List Task) :
    state.addTasks tasks = state.extend tasks [] := by
  simp [addTasks, extend]

/-- Creating instances of a JavaScript class, once the class itself says so. -/
theorem State.acts_createJS (fair : setting.IsFair) (valid : state.Valid setting)
    (found : state.class? name = some cls) (kind : cls.kind.isDefinedJS = true)
    (uses : cls.uses.instances = true) :
    Acts setting {} state (state.createJS cls) ∧
      ∃ record, (state.createJS cls).class? name = some record ∧ record.hasInstances = true := by
  obtain rfl := valid.follows.name_eq found
  have created := (valid.classes found).created uses
  have linked := valid.follows.classes_eq found
  have fact : setting.facts (.inhabited cls.name) :=
    fair.closed _ (.inhabitedJS created linked (ClassKind.isOrdinary_of_isDefinedJS kind))
  have super : ∀ task ∈ cls.superTasks, setting.Justifies task := by
    intro task mem
    obtain ⟨parent, hp, rfl⟩ := List.mem_map.1 mem
    exact fair.closed _ (.superInstances created linked kind (Option.mem_toList.1 hp))
  have members : ∀ task ∈ exportedMemberTasks cls, setting.Justifies task := fun _ =>
    justifies_exportedMemberTasks fair valid found fact
  let asked := state.extend cls.superTasks []
  have ask : Acts setting {} state asked := .single (.extend [] super)
  have same : state.createJS cls =
      (asked.markInstances cls.name).addTasks (exportedMemberTasks cls) := by
    simp only [asked, ← addTasks_eq]
    rfl
  have found' : asked.class? cls.name = some cls := found
  cases has : cls.hasInstances with
  | true =>
    have unmarked : asked.markInstances cls.name = asked := by
      simp only [markInstances, found', has, if_true]
    rw [same, unmarked, addTasks_eq]
    exact ⟨ask.tail (.extend [] members), cls, found, has⟩
  | false =>
    let marked : ClassRecord := { cls with hasInstances := true }
    have once : (asked.markInstances cls.name).addTasks (exportedMemberTasks cls) =
        asked.revise cls.name marked (instanceTasks cls ++ exportedMemberTasks cls) [] := by
      simp [markInstances, found', has, addTasks, revise, setClass, setStatus, marked]
    have update : Update setting asked cls marked (instanceTasks cls ++ exportedMemberTasks cls)
        [] := by
      refine .instances fact (fun task mem => ?_) fun task mem => ?_
      · rcases List.mem_append.1 mem with mem | mem
        · exact justifies_instanceTasks fair valid found fact mem
        · exact members task mem
      · rw [ClassRecord.instanceDues, if_pos kind, List.append_assoc] at mem
        rcases List.mem_append.1 mem with mem | mem
        · exact List.mem_append_left _ (List.mem_append_right _ mem)
        · exact List.mem_append_right _ mem
    have within : cls.Within {} marked := ⟨.inl, .inl, fun _ => .inl, fun _ => .inl⟩
    rw [same, once]
    refine ⟨ask.tail (.update found' update within), marked, ?_, rfl⟩
    rw [class?_revise, if_pos rfl]

/-! ### Instances of any class -/

/-- The steps that make a class say that there are instances of it. -/
theorem State.acts_addInstances (found : state.class? name = some cls)
    (present : cls.isPresent = true) (fact : setting.facts (.used cls.name .instances))
    (cause : Cause) :
    let source : ClassRecord := { cls with creators := recordOnce cls.creators cause }
    Acts setting { created := (· = cls.name) } state
      (state.setClass name (source.addUse .instances)) := by
  intro source
  let noted := state.revise name source [] []
  have found' : noted.class? name = some source := by rw [class?_revise, if_pos rfl]
  have same : state.setClass name (source.addUse .instances) =
      noted.revise name (source.addUse .instances) [] [] := by
    rw [revise_nil]
    simp only [noted, revise_nil, setClass, setStatus, insert_insert]
  have first : cls.Within { created := (· = cls.name) } source :=
    ⟨.inl, .inl, fun _ => .inl, fun _ => .inl⟩
  have second : source.Within { created := (· = cls.name) } (source.addUse .instances) :=
    ⟨fun _ => .inr rfl, .inl, fun _ => .inl, fun _ => .inl⟩
  rw [same]
  exact .tail (.single (.update found (.creator cause) first))
    (.update found' (.use present fact) second)

/-- Instances of a class that is not ordinary are known as soon as it is marked. -/
theorem State.Heeds.of_marked (fair : setting.IsFair) (valid : state.Valid setting)
    (acts : Acts setting { created := (· = name) } state next)
    (found : next.class? name = some record) (kind : record.kind.isOrdinary = false)
    (has : record.hasInstances = true) :
    state.Heeds setting { created := (· = name) } next := by
  refine ⟨acts, fun {other linked} found' created => ?_,
    fun {upper linked other call} found' resident _ new => ?_⟩
  · obtain rfl : other = name := created
    obtain rfl := Option.some.inj (found.symm.trans found')
    unfold KnowsInstances
    rw [kind, if_neg Bool.false_ne_true]
    exact has
  · obtain rfl : other = name := new.resolve_right False.elim
    obtain ⟨below, hb, ordinary, _⟩ :=
      (Changes.valid fair acts.changes valid).residents found' resident
    obtain rfl := Option.some.inj (found.symm.trans hb)
    rw [kind] at ordinary
    cases ordinary

/-- So they are known after the steps that mark the class. -/
theorem State.Heeds.of_marks (fair : setting.IsFair) (valid : state.Valid setting)
    {middle : State} (acts : Acts setting { created := (· = name) } state middle)
    (found : middle.class? name = some cls) (kind : cls.kind.isOrdinary = false)
    (marks : Acts setting { created := (· = name) } middle next)
    (marked : next.class? name = some record) (has : record.hasInstances = true) :
    Changes setting middle next ∧ state.Heeds setting { created := (· = name) } next := by
  obtain ⟨_, found', growth⟩ := (Changes.grows (Acts.changes marks)).classes found
  obtain rfl := Option.some.inj (marked.symm.trans found')
  exact ⟨Acts.changes marks,
    .of_marked fair valid (acts.trans marks) marked (growth.kind_eq ▸ kind) has⟩

/-- What instances of a class bring up is seen to, and the class says that there are instances if
there can be any. -/
theorem State.heeds_create (fair : setting.IsFair) (valid : state.Valid setting)
    (found : state.class? name = some cls) (present : cls.isPresent = true)
    (fact : cls.kind.isInstantiable = true → setting.facts (.used name .instances))
    (cause : Cause) :
    ∃ scope : Scope, (∀ name, ¬ scope.read name) ∧
      state.Heeds setting scope (state.create name cause) ∧
      ∃ record, (state.create name cause).class? name = some record ∧
        (cls.kind.isInstantiable = true → record.uses.instances = true) := by
  obtain rfl := valid.follows.name_eq found
  let source : ClassRecord := { cls with creators := recordOnce cls.creators cause }
  by_cases known : (cls.uses.instances || !cls.kind.isInstantiable) = true
  · have same : state.create cls.name cause = state.revise cls.name source [] [] := by
      rw [revise_nil]
      simp only [create, found, known, if_true, source]
    have within : cls.Within {} source := ⟨.inl, .inl, fun _ => .inl, fun _ => .inl⟩
    rw [same]
    refine ⟨{}, fun _ h => h, .of_acts_empty (.single (.update found (.creator cause) within)),
      source, by rw [class?_revise, if_pos rfl], fun kind => ?_⟩
    simpa [kind] using known
  · have fresh : cls.uses.instances = false ∧ cls.kind.isInstantiable = true := by
      simpa using known
    let used := source.addUse .instances
    let told := state.setClass cls.name used
    have acts : Acts setting { created := (· = cls.name) } state told :=
      acts_addInstances found present (fact fresh.2) cause
    have found' : told.class? cls.name = some used := by rw [class?_setClass, if_pos rfl]
    have valid' := Changes.valid fair (Acts.changes acts) valid
    have creates : state.create cls.name cause =
        if cls.kind.isOrdinary then told.createOrdinary source
        else if cls.kind.isDefinedJS then told.createJS source
        else told.markInstances cls.name := by
      simp only [create, found, known, source, told, used]
      rfl
    obtain ⟨late, heeds⟩ : Changes setting told (state.create cls.name cause) ∧
        state.Heeds setting { created := (· = cls.name) } (state.create cls.name cause) := by
      rw [creates]
      by_cases ordinary : cls.kind.isOrdinary = true
      · rw [if_pos ordinary]
        have heeds := heeds_createOrdinary fair valid' found' ordinary rfl source rfl rfl
        exact ⟨Acts.changes heeds.acts, acts.trans heeds.acts, heeds.created,
          fun found resident noted new =>
            (heeds.made found resident noted new).extend (Acts.changes acts) .refl⟩
      · rw [if_neg ordinary]
        by_cases defined : cls.kind.isDefinedJS = true
        · rw [if_pos defined]
          obtain ⟨marks, record, marked, has⟩ := acts_createJS fair valid' found' defined rfl
          exact Heeds.of_marks fair valid acts found' (Bool.eq_false_iff.2 ordinary)
            (Acts.of_empty marks) marked has
        · rw [if_neg defined]
          have inhabited : setting.facts (.inhabited cls.name) :=
            fair.closed _ (.inhabitedJS (fact fresh.2) (valid.follows.classes_eq found)
              (Bool.eq_false_iff.2 ordinary))
          obtain ⟨marks, record, marked, has⟩ :=
            @acts_markInstances _ _ { created := (· = cls.name) } _ _ fair valid' found' inhabited
              (Bool.eq_false_iff.2 defined)
          exact Heeds.of_marks fair valid acts found' (Bool.eq_false_iff.2 ordinary) marks marked
            has
    obtain ⟨record, found'', growth⟩ := (Changes.grows late).classes found'
    exact ⟨_, fun _ h => h, heeds, record, found'', fun _ => growth.created rfl⟩

end ClassLinker
