import ClassLinker.Proofs.Comparing

/-!
# A run that is asked for less

Every step of a run whose requirements are among those of another run leads to a state below the end
of that one, if that one reaches whatever the first run relays. The proof goes by the effects that
doing a task consists of (`Effect.staysUnder`): a use, an instance or a call that is new has been
asked for by a task, and what the task asks for has been served in the end of the larger run. Then
it goes by turns (`Turn.staysUnder`) and by induction over the run (`Turns.staysUnder`). The end of
the larger run does not change all the while.
-/

namespace ClassLinker

variable {setting : Setting} {more : Requirement} {state next upper : State}
variable {name other owner : ClassName} {cls record : ClassRecord} {task : Task}
variable {key : MethodKey} {entry : MethodRecord} {method : MethodName} {cause : Cause}

namespace State

/-- Unless it is a call, what a task demands has been served. -/
theorem Foresees.serves (foresees : upper.Foresees setting task) {demand : Demand}
    (action : task.action = .fulfil demand) (notDirect : ∀ key, demand ≠ .callDirect key) :
    upper.Serves task.cls demand := by
  cases foresees with
  | served action' serves =>
    cases action.symm.trans action'
    exact serves
  | entered action' => cases action.symm.trans action'
  | relayed _ _ _ calls =>
    rcases calls with ⟨key, action'⟩ | ⟨method, action'⟩
    · cases action.symm.trans action'
      exact absurd rfl (notDirect key)
    · cases action.symm.trans action'

/-- A use that is asked for is made. -/
theorem Fulfils.contains {use : Use} (fulfils : state.Fulfils cls (.use use))
    (notInstances : use ≠ .instances) (kind : use = .module → cls.kind.isModule = true) :
    cls.uses.contains use = true := by
  cases use with
  | instances => exact absurd rfl notInstances
  | module =>
    rcases fulfils with read | ⟨not, _⟩
    · exact read
    · rw [kind rfl] at not
      cases not
  | tests | typeData | staticFields | privateFields => exact fulfils

end State

section

variable (full : ∀ fact, setting.facts fact) (fair : setting.IsFair)
  (final : upper.Final { setting with requirement := more }) (valid : state.Valid setting)
  (under : state.Under setting upper)

include final valid under

namespace State.Under

/-- What a task demands of a class that exists is fulfilled in the larger run, unless it is a call
with a fixed target. -/
theorem fulfils (foresees : upper.Foresees setting task) {demand : Demand}
    (asked : task.action = .fulfil demand) (notDirect : ∀ key, demand ≠ .callDirect key)
    (found : state.class? task.cls = some cls) (present : cls.isPresent = true)
    (found' : upper.class? task.cls = some record) :
    record.kind = cls.kind ∧ upper.Fulfils record demand := by
  obtain ⟨above, at_, fresh_eq⟩ := under.exists_linked final valid found
  obtain rfl := Option.some.inj (found'.symm.trans at_)
  have present_eq : record.isPresent = cls.isPresent := ClassRecord.isPresent_of_fresh fresh_eq
  exact ⟨ClassRecord.kind_of_fresh fresh_eq,
    (foresees.serves asked notDirect).fulfils found' (present_eq.trans present)⟩

omit final valid in
/-- A use that is made in the larger run too. -/
theorem addUse {use : Use} (found : state.class? name = some cls)
    (made : ∀ {above}, upper.class? name = some above → above.uses.contains use = true) :
    (state.revise name (cls.addUse use) [] []).Under setting upper := by
  refine under.update found rfl
    (fun {above} found' => { under.classes found found' with uses := fun {other} h => ?_ })
    fun _ mem => by cases mem
  rw [ClassRecord.addUse, Uses.contains_insert, Bool.or_eq_true, decide_eq_true_eq] at h
  rcases h with rfl | before
  · exact made found'
  · exact (under.classes found found').uses before

omit final valid in
/-- A call that is noted in the larger run too. -/
theorem addCall (found : state.class? name = some cls)
    (noted : ∀ {above}, upper.class? name = some above → ∃ by_, (method, by_) ∈ above.calls) :
    (state.revise name { cls with calls := cls.calls ++ [(method, cause)] } [] []).Under
      setting upper := by
  refine under.update found rfl
    (fun {above} found' =>
      { under.classes found found' with calls := fun {called by_} mem => ?_ })
    fun _ mem => by cases mem
  rcases List.mem_append.1 mem with before | new
  · exact (under.classes found found').calls before
  · cases List.mem_singleton.1 new
    exact noted found'

/-! ### Instances -/

/-- What follows from instances is foreseen. -/
theorem foresees_dues (found : state.class? name = some cls)
    (has : ∀ {above}, upper.class? name = some above → above.hasInstances = true)
    (mem : task ∈ cls.instanceDues) : upper.Foresees setting task := by
  obtain ⟨above, found', fresh_eq⟩ := under.exists_linked final valid found
  have dues : above.instanceDues = cls.instanceDues := ClassRecord.instanceDues_of_fresh fresh_eq
  obtain ⟨demand, action, serves⟩ := final.serves_instances found' (has found') (dues ▸ mem)
  exact .served action serves

theorem markInstances
    (has : ∀ {above}, upper.class? name = some above → above.hasInstances = true) :
    (state.markInstances name).Under setting upper := by
  rcases state.markInstances_cases name with same | ⟨cls, found, _, same⟩
  · rw [same]
    exact under
  · rw [same]
    refine under.update found rfl
      (fun found' => { under.classes found found' with hasInstances := fun _ => has found' })
      fun task mem => under.foresees_dues final valid found has ?_
    exact List.mem_append_left _ (List.mem_append_right _ mem)

omit final valid in
theorem addInhabited (name ancestor : ClassName) :
    (state.addInhabited name ancestor).Under setting upper := by
  rcases state.addInhabited_cases name ancestor with same | ⟨cls, found, same⟩
  · rw [same]
    exact under
  · rw [same]
    exact under.update found rfl (fun found' => { under.classes found found' with })
      fun _ mem => by cases mem

/-- Instances that the smaller run creates are known in the larger one. -/
theorem knowsInstances (found : state.class? name = some cls)
    (created : cls.uses.instances = true) :
    ∃ above, upper.class? name = some above ∧ above.fresh = cls.fresh ∧
      above.uses.instances = true ∧ upper.KnowsInstances name above := by
  obtain ⟨above, found', fresh_eq⟩ := under.exists_linked final valid found
  have contains : cls.uses.contains .instances = true := created
  have created : above.uses.instances = true := (under.classes found found').uses contains
  exact ⟨above, found', fresh_eq, created, final.order.consistent.created found' created⟩

/-- A class that is not ordinary has instances in the larger run if the smaller run creates them. -/
theorem hasInstances (found : state.class? name = some cls) (created : cls.uses.instances = true)
    (notOrdinary : cls.kind.isOrdinary = false) (found' : upper.class? name = some record) :
    record.hasInstances = true := by
  obtain ⟨above, at_, fresh_eq, _, knows⟩ := under.knowsInstances final valid found created
  obtain rfl := Option.some.inj (found'.symm.trans at_)
  have kind_eq : record.kind = cls.kind := ClassRecord.kind_of_fresh fresh_eq
  exact knows.hasInstances (kind_eq ▸ notOrdinary)

/-- What the smaller run makes known of instances to an ancestor, the larger one does too. -/
theorem markAncestor (found : state.class? name = some cls) (created : cls.uses.instances = true)
    (kind : cls.kind.isOrdinary = true) (mem : other ∈ cls.ancestors) :
    ((state.markInstances other).addInhabited name other).Under setting upper := by
  obtain ⟨above, found', fresh_eq, _, knows⟩ := under.knowsInstances final valid found created
  have kind_eq : above.kind = cls.kind := ClassRecord.kind_of_fresh fresh_eq
  have ancestors_eq : above.ancestors = cls.ancestors :=
    ClassRecord.ancestors_of_fresh fresh_eq
  obtain ⟨upon, at_, has, _⟩ := knows.above (kind_eq ▸ kind) (ancestors_eq ▸ mem)
  refine (under.markInstances final valid fun at_' => ?_).addInhabited ..
  obtain rfl := Option.some.inj (at_.symm.trans at_')
  exact has

/-- The constructor of a module that is read has been called in the larger run. -/
theorem construct (found : state.class? name = some cls) (read : cls.uses.module = true)
    (kind : cls.kind.isOrdinary = true) (cause : Cause) :
    (state.extend [constructorTask name cause] []).Under setting upper := by
  obtain ⟨above, found', fresh_eq⟩ := under.exists_linked final valid found
  have kind_eq : above.kind = cls.kind := ClassRecord.kind_of_fresh fresh_eq
  have contains : cls.uses.contains .module = true := read
  refine under.extend (fun task mem => ?_) []
  obtain rfl := List.mem_singleton.1 mem
  exact .served rfl (final.serves_constructor found'
    ((under.classes found found').uses contains) (kind_eq ▸ kind))

include full fair in
/-- What follows from instances of a JavaScript class is asked for. -/
theorem createJS (found : state.class? name = some cls) (created : cls.uses.instances = true)
    (kind : cls.kind.isDefinedJS = true) : (state.createJS cls).Under setting upper := by
  have has : ∀ {above}, upper.class? name = some above → above.hasInstances = true :=
    under.hasInstances final valid found created (ClassKind.isOrdinary_of_isDefinedJS kind)
  have foreseen : ∀ due ∈ cls.instanceDues, upper.Foresees setting due :=
    fun due mem => under.foresees_dues final valid found has mem
  have supers : ∀ due ∈ cls.superTasks, due ∈ cls.instanceDues := fun due mem =>
    List.mem_append_left _ (List.mem_append_left _ (by rwa [if_pos kind]))
  have extends_ : Change setting state (state.extend cls.superTasks []) :=
    .extend [] (Setting.justifies_of_full full fun due mem =>
      ClassRecord.exists_of_mem_instanceDues (supers due mem))
  have extended := under.extend (fun due mem => foreseen due (supers due mem)) []
  have marked := extended.markInstances final (extends_.valid fair valid)
    fun {above} at_ => has (valid.follows.name_eq found ▸ at_)
  simp only [State.createJS, State.addTasks_eq]
  exact marked.extend (fun due mem => foreseen due (List.mem_append_right _ mem)) []

/-- A call that the smaller run has noted is answered in the larger one. -/
theorem answered (found : state.class? other = some record) (resident : name ∈ record.inhabited)
    (noted : (method, cause) ∈ record.calls) (direct : method.isProxy = false) :
    upper.Answered name method := by
  obtain ⟨cls, hc, kind, created, mem⟩ := valid.residents found resident
  obtain ⟨above, found', _⟩ := under.exists_linked final valid found
  obtain ⟨receiver, hr, fresh_eq, created', _⟩ := under.knowsInstances final valid hc created
  obtain ⟨_, noted'⟩ := (under.classes found found').calls noted
  have kind_eq : receiver.kind = cls.kind := ClassRecord.kind_of_fresh fresh_eq
  have ancestors_eq : receiver.ancestors = cls.ancestors :=
    ClassRecord.ancestors_of_fresh fresh_eq
  have dispatched := final.dispatched found' noted' hr (kind_eq ▸ kind) created'
    (ancestors_eq ▸ mem)
  unfold Dispatched at dispatched
  rwa [direct, Bool.false_and, if_neg Bool.false_ne_true] at dispatched

theorem foreseesCall_of_noted (found : state.class? other = some record)
    (resident : name ∈ record.inhabited) (noted : (method, cause) ∈ record.calls) :
    upper.ForeseesCall setting name ⟨.publicInstance, method⟩ cause :=
  .answered (fun _ direct => under.answered final valid found resident noted direct)
    fun space => absurd rfl space

/-- A call with a fixed target that a task asks for is foreseen. -/
theorem foreseesCall (foresees : upper.Foresees setting task)
    (asked : task.action = .fulfil (.callDirect key)) (found : state.class? task.cls = some cls)
    (present : cls.isPresent = true) : upper.ForeseesCall setting task.cls key task.cause := by
  cases foresees with
  | entered action => cases asked.symm.trans action
  | relayed _ caller added => exact .relayed caller added
  | served action serves =>
    cases asked.symm.trans action
    obtain ⟨above, found', fresh_eq⟩ := under.exists_linked final valid found
    have present_eq : above.isPresent = cls.isPresent := ClassRecord.isPresent_of_fresh fresh_eq
    have fulfils := serves.fulfils found' (present_eq.trans present)
    simp only [Fulfils, ClassRecord.idOf, final.order.valid.follows.name_eq found'] at fulfils
    refine .answered (fun space _ => ?_) fun space => ?_
    · rwa [if_pos space] at fulfils
    · rwa [if_neg space] at fulfils

/-- What an entry point asks for has been served in the larger run. -/
theorem enter (foresees : upper.Foresees setting task) (asked : task.action = .enter)
    (found : state.class? task.cls = some cls) :
    (state.extend (entryTasks cls) []).Under setting upper := by
  refine under.extend (fun due mem => ?_) []
  cases foresees with
  | served action => cases asked.symm.trans action
  | relayed _ _ _ calls =>
    rcases calls with ⟨_, action⟩ | ⟨_, action⟩ <;> cases asked.symm.trans action
  | entered _ entry =>
    obtain ⟨above, found', fresh_eq⟩ := under.exists_linked final valid found
    obtain ⟨demand, action⟩ := exists_of_mem_entryTasks mem
    exact .served action
      (final.serves_entered entry found' (entryTasks_congr fresh_eq ▸ mem) action)

omit final valid in
/-- A task that is foreseen waits for its class. -/
theorem park {status later : Status} (settled : upper.IsSettledClass task.cls)
    (foresees : upper.Foresees setting task) (before : state.status? task.cls = some status)
    (unlinked : status.record? = none) (after : later.record? = none)
    (parked : later.parked = status.parked ++ [task]) :
    (state.setStatus task.cls later).Under setting upper := by
  refine under.setStatus settled (class?_eq_none_of_status before unlinked) after fun due mem => ?_
  rw [parked] at mem
  rcases List.mem_append.1 mem with old | new
  · exact under.parked before old
  · rw [List.mem_singleton.1 new]
    exact foresees

end State.Under

/-! ### Effects -/

include full fair

/-- Every effect of a task that is foreseen leads to a state below the larger run. -/
theorem Effect.staysUnder (coherent : setting.world.IsCoherent) (allowed : setting.allow = true)
    (bridged : state.Bridged setting) (justified : setting.Justifies task)
    (foresees : upper.Foresees setting task)
    (relays : ∀ id, Relayed setting.world next.method? id → upper.IsReached id)
    (effect : Effect task state next) : next.Under setting upper := by
  have settled := foresees.isSettledClass final
  cases effect with
  | @use cls use found present asked notInstances kind =>
    refine under.addUse found fun {above} found' => ?_
    obtain ⟨kind_eq, fulfils⟩ :=
      under.fulfils final valid foresees asked (fun _ h => by cases h) found present found'
    exact fulfils.contains notInstances fun h => kind_eq ▸ kind h
  | creator found =>
    exact under.update found rfl (fun found' => { under.classes found found' with })
      fun _ mem => by cases mem
  | @create cls found present asked kind =>
    refine under.addUse found fun {above} found' => ?_
    rcases asked with asked | read
    · obtain ⟨kind_eq, fulfils⟩ :=
        under.fulfils final valid foresees asked (fun _ h => by cases h) found present found'
      exact fulfils (kind_eq ▸ kind)
    · -- The module has been read in the larger run too, and that creates its instance.
      have contains : cls.uses.contains .module = true := read
      exact (final.order.consistent.read found' ((under.classes found found').uses contains)).2
  | mark found created kind mem => exact under.markAncestor final valid found created kind mem
  | markJS found created kind => exact under.createJS full fair final valid found created kind
  | markNative found created notOrdinary =>
    exact under.markInstances final valid (under.hasInstances final valid found created notOrdinary)
  | construct found _ read kind => exact under.construct final valid found read kind _
  | @note cls method found present notJS asked =>
    refine under.addCall found fun {above} found' => ?_
    obtain ⟨kind_eq, fulfils⟩ :=
      under.fulfils final valid foresees asked (fun _ h => by cases h) found present found'
    exact fulfils (kind_eq ▸ notJS)
  | @dispatch other receiver record call found resident noted =>
    obtain ⟨cls, hc, kind, _⟩ := valid.residents found resident
    exact under.lands full fair final valid coherent allowed bridged hc
      (State.lands_callExact fair valid hc _ (fun _ => kind) _) relays
      (under.foreseesCall_of_noted final valid found resident noted)
  | @again other receiver record call found resident noted dispatched =>
    obtain ⟨cls, hc, kind, _⟩ := valid.residents found resident
    exact under.lands full fair final valid coherent allowed bridged hc
      (State.lands_callAgain fair valid hc (fun _ => kind) dispatched _) relays
      (under.foreseesCall_of_noted final valid found resident noted)
  | @exact cls method found asked =>
    refine under.lands full fair final valid coherent allowed bridged found
      (State.lands_exact fair valid found justified asked _) relays ?_
    -- It is only proxies that make such a call.
    cases foresees with
    | served action | entered action => cases asked.symm.trans action
    | relayed _ caller added => exact .relayed caller added
  | direct found present asked =>
    exact under.lands full fair final valid coherent allowed bridged found
      (State.lands_callDirect fair valid found _ _) relays
      (under.foreseesCall final valid foresees asked found present)
  | enter found asked => exact under.enter final valid foresees asked found
  | report => exact under.extend (fun _ mem => by cases mem) _
  | await new =>
    have parked : ∀ due ∈ (Status.awaited [task]).parked, upper.Foresees setting due := by
      intro due mem
      rw [List.mem_singleton.1 mem]
      exact foresees
    exact (under.setStatus settled (State.class?_eq_none_of_new new) rfl parked).of_work
      (List.Subset.refl _)
  | park status | parkLoaded status => exact under.park settled foresees status rfl rfl rfl

/-- So does the task as a whole. -/
theorem Effects.staysUnder (coherent : setting.world.IsCoherent) (allowed : setting.allow = true)
    (bridged : state.Bridged setting) (justified : setting.Justifies task)
    (foresees : upper.Foresees setting task)
    (relays : ∀ id, Relayed setting.world next.method? id → upper.IsReached id)
    (effects : Effects task state next) : next.Under setting upper := by
  induction effects with
  | refl => exact under
  | @tail middle next early effect ih =>
    have before := Effects.changes fair full valid justified early
    have validM := Changes.valid fair before valid
    have bridgedM := Moves.bridged fair valid bridged (Changes.moves before)
    have change := effect.changes fair full validM justified
    have underM := ih fun id relayed =>
      relays id (Moves.relayed fair validM (Changes.moves change) relayed)
    exact effect.staysUnder full fair final validM underM coherent allowed bridgedM justified
      foresees relays

/-! ### Turns -/

section

omit full fair final valid

/-- Nothing is known yet of a class that has just been linked. -/
theorem State.Under.link {status : Status} {errors : List Diagnostic} (fresh_eq : cls.fresh = cls)
    (before : state.status? name = some status) :
    (state.revise name cls status.parked errors).Under setting upper := by
  obtain ⟨hasInstances, calls, uses, unreached⟩ := ClassRecord.silent_of_fresh fresh_eq
  refine under.revise (under.known before)
    (fun _ => ⟨fun {use} h => ?_, fun h => ?_, fun mem => ?_⟩)
    (fun has reached => ?_) (fun task mem => under.parked before mem) errors
  · rw [uses] at h
    cases use <;> cases h
  · rw [hasInstances] at h
    cases h
  · rw [calls] at mem
    cases mem
  · rw [unreached has] at reached
    cases reached

/-- The classes of a cycle were known before, and what waited for them is dropped. -/
theorem State.Under.failCycle {classes : List ClassName} {closing : ClassName}
    (loaded : ∀ name ∈ classes, ∃ summary parked,
      state.status? name = some (.loaded (some summary) parked)) :
    (state.failCycle classes closing).Under setting upper where
  known {name status} h := by
    rcases State.status_of_failCycle h with ⟨mem, _⟩ | h
    · obtain ⟨_, _, before⟩ := loaded name mem
      exact under.known before
    · exact under.known h
  classes h := by
    rw [State.class?_failCycle _ loaded] at h
    exact under.classes h
  reached {id} h := by
    refine under.reached ?_
    unfold State.IsReached State.method? at h ⊢
    rwa [State.class?_failCycle _ loaded] at h
  work mem := by
    rw [State.failCycle_eq] at mem
    exact under.work mem
  parked {name status task} h mem := by
    rcases State.status_of_failCycle h with ⟨_, rfl⟩ | h
    · cases mem
    · exact under.parked h mem

/-- A class that is linked or fails lies below the larger run as it did before. -/
theorem LinkStep.staysUnder (step : LinkStep setting state next) : next.Under setting upper := by
  cases step with
  | absent status | link _ status => exact under.link rfl status
  | fail status =>
    exact under.setStatus (under.known status) (State.class?_eq_none_of_status status rfl) rfl
      fun _ mem => by cases mem
  | cycle _ loaded => exact under.failCycle loaded

end

/-- Every turn leads to a state below the larger run, if that run is asked for all that the smaller
one is. -/
theorem Turn.staysUnder (coherent : setting.world.IsCoherent) (allowed : setting.allow = true)
    (bridged : state.Bridged setting)
    (wider : setting.requirement.tasks false ⊆ more.tasks false)
    (relays : ∀ id, Relayed setting.world next.method? id → upper.IsReached id)
    (turn : Turn setting state next) : next.Under setting upper := by
  cases turn with
  | @perform task rest order work =>
    have takes := order.takes work
    have fewer : rest ⊆ state.work := work ▸ List.subset_cons_self ..
    have foresees : upper.Foresees setting task :=
      under.work (work ▸ List.mem_cons_self)
    have taken : ({ state with work := rest } : State).Under setting upper := under.of_work fewer
    exact Effects.staysUnder full fair final takes.valid taken coherent allowed
      (fun _ _ added => bridged _ _ added) takes.justified
      foresees relays
      (State.effects_perform fair full takes.valid takes.consistent takes.justified)
  | link linking =>
    cases linking with
    | settle step => exact step.staysUnder under
    | @request child parent declares new =>
      have unlinked : state.class? parent = none := State.class?_eq_none_of_new new
      -- In the larger run the child is settled, and nothing rests there before its parents are.
      have settled : upper.IsSettledClass parent := by
        unfold State.openParents at declares
        split at declares
        · rename_i summary parked status
          have extends_ : setting.world.Extends child parent :=
            ⟨summary, (valid.loaded status).symm, declares⟩
          obtain ⟨_, h⟩ := State.exists_of_isAvailable
            (final.rests child parent (under.known status) extends_)
          exact final.isSettledClass h
        · cases declares
      have parked : ∀ task ∈ (Status.awaited []).parked, upper.Foresees setting task :=
        fun _ mem => by cases mem
      exact (under.setStatus settled unlinked rfl parked).of_work (List.Subset.refl _)
    | queue => exact under.of_work (List.Subset.refl _)
  | handOver => exact under.of_work (List.Subset.refl _)
  | receive awaited =>
    exact under.receive (under.known awaited)
      (fun status h => ⟨_, Option.some.inj (h.symm.trans awaited)⟩) _
  | root blank =>
    refine under.receive (.inl final.order.rooted) (fun status h => ?_) _
    rw [blank, State.status?_blank] at h
    cases h
  | ask =>
    rw [State.addTasks_eq]
    refine under.extend (fun task mem => ?_) []
    rcases List.mem_append.1 mem with required | entered
    · obtain ⟨demand, _, action, _⟩ := Requirement.exists_of_mem_tasks required
      exact .served action (final.serves_required (wider required) action)
    · obtain ⟨name, entry, rfl⟩ := List.mem_map.1 entered
      exact .entered rfl entry

end

/-- A run stays below the end of one that is asked for more, if that one reaches whatever the first
one relays. -/
theorem Turns.staysUnder (full : ∀ fact, setting.facts fact) (fair : setting.IsFair)
    (final : upper.Final { setting with requirement := more })
    (coherent : setting.world.IsCoherent) (allowed : setting.allow = true)
    (wider : setting.requirement.tasks false ⊆ more.tasks false)
    (relays : ∀ id, Relayed setting.world state.method? id → upper.IsReached id)
    (turns : Turns setting { allowForwarders := setting.allow } state) :
    state.Under setting upper := by
  have blank := State.valid_empty setting
  induction turns with
  | refl =>
    refine ⟨fun h => ?_, fun found => ?_, fun reached => ?_, fun mem => ?_, fun h => ?_⟩
    · rw [State.status?_blank] at h; cases h
    · rw [State.class?_blank] at found; cases found
    · obtain ⟨_, found, _⟩ := State.isReached_iff.1 reached
      rw [State.class?_blank] at found; cases found
    · cases mem
    · rw [State.status?_blank] at h; cases h
  | tail early turn ih =>
    have valid := Turns.valid fair early blank
    have under := ih fun id relayed =>
      relays id (Moves.relayed fair valid (turn.moves fair) relayed)
    have bridged := State.bridged_of_reached fair (Turns.moves fair early)
    exact turn.staysUnder full fair final valid under coherent allowed bridged wider relays

end ClassLinker
