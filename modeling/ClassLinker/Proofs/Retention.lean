import ClassLinker.Proofs.Courses
import ClassLinker.Proofs.Shadowing

/-!
# What a run never takes back

`State.Grows` leaves open what becomes of a method that is called: a call puts an entry into its
class, in place of what the class has for the method. Here the entries are followed one by one. An
entry stays that of the same method, with more callers, or it is replaced by a bridge to a default
method (`ClassRecord.Bridges`). A bridge is only added to a class that finds no code for the method,
while a method that is reachable without code has been reported or hides inherited code
(`Turns.explains`). So what a bridge replaces is an abstract method that nothing has called, as its
class declares it (`State.bridges_of_lacking`).

`State.Retains` puts this together with the growth of everything else. It holds for every effect of
a task, hence for every turn, and `run_retains` is about any stretch of a run.
-/

namespace ClassLinker

variable {setting : Setting} {world : Universe} {state next : State} {task : Task}
variable {name owner : ClassName} {cls record : ClassRecord} {key : MethodKey}
variable {entry later : MethodRecord} {method : MethodName} {cause : Cause}
variable {errors : List Diagnostic} {allow : Bool} {requirement : Requirement} {loader : Loader}

/-- No class declares a public method by a name that is reserved for reflective proxies. -/
def Universe.ReservesProxies (world : Universe) : Prop :=
  ∀ {name summary method}, world name = some summary → method ∈ summary.methods →
    method.space = .publicInstance → method.name.isProxy = false

/-! ### Entries -/

/-- The entry stays that of the same method, which may have been called. -/
structure MethodRecord.Stays (before after : MethodRecord) : Prop where
  id_eq : after.id = before.id
  isAbstract : after.isAbstract = before.isAbstract
  isPresent : after.isPresent = before.isPresent
  forwarder : after.forwarder = before.forwarder
  isReached : before.isReached = true → after.isReached = true
  callers : before.callers <+: after.callers

/-- The entry of a public abstract method, which a class other than an interface declares and
nothing has called, is replaced by a bridge to a default method. -/
structure ClassRecord.Bridges (cls : ClassRecord) (key : MethodKey) (before after : MethodRecord) :
    Prop where
  space : key.space = .publicInstance
  kind : cls.kind ≠ .interface
  declared : cls.fresh.method? key = some before
  isAbstract : before.isAbstract = true
  isReached : before.isReached = false
  callers : before.callers = []
  id_eq : after.id = before.id
  isConcrete : after.isConcrete = true
  forwarder : ∃ interface, after.forwarder = some (.bridge interface)

namespace MethodRecord.Stays

theorem refl (entry : MethodRecord) : entry.Stays entry :=
  ⟨rfl, rfl, rfl, rfl, fun reached => reached, List.prefix_rfl⟩

theorem trans {first second third : MethodRecord} (early : first.Stays second)
    (late : second.Stays third) : first.Stays third where
  id_eq := late.id_eq.trans early.id_eq
  isAbstract := late.isAbstract.trans early.isAbstract
  isPresent := late.isPresent.trans early.isPresent
  forwarder := late.forwarder.trans early.forwarder
  isReached := late.isReached ∘ early.isReached
  callers := early.callers.trans late.callers

theorem calledBy (entry : MethodRecord) (cause : Cause) : entry.Stays (entry.calledBy cause) :=
  ⟨rfl, rfl, rfl, rfl, fun _ => rfl, prefix_recordOnce ..⟩

theorem isConcrete (stays : entry.Stays later) : later.isConcrete = entry.isConcrete := by
  simp only [MethodRecord.isConcrete, stays.isPresent, stays.isAbstract]

/-- An entry that nothing has called in the end is as it was. -/
theorem eq_of_uncalled (stays : entry.Stays later) (unreached : later.isReached = false)
    (uncalled : later.callers = []) : entry = later := by
  have before : entry.isReached = false := by
    by_contra reached
    rw [stays.isReached (by simpa using reached)] at unreached
    cases unreached
  have callers : entry.callers = [] := List.prefix_nil.1 (uncalled ▸ stays.callers)
  obtain ⟨id_eq, isAbstract, isPresent, forwarder⟩ := stays
  cases entry
  cases later
  simp_all

end MethodRecord.Stays

/-! ### Classes and states -/

/-- The class is linked as before. What is known of it has become more, lists have got longer at the
end, and its methods stay or are replaced by bridges. -/
structure ClassRecord.Retains (before after : ClassRecord) : Prop where
  kind : after.kind = before.kind
  superClass : after.superClass = before.superClass
  interfaces : after.interfaces = before.interfaces
  ancestors : after.ancestors = before.ancestors
  summary : after.summary = before.summary
  fresh_eq : after.fresh = before.fresh
  uses : ∀ {use}, before.uses.contains use = true → after.uses.contains use = true
  hasInstances : before.hasInstances = true → after.hasInstances = true
  creators : before.creators <+: after.creators
  inhabited : before.inhabited <+: after.inhabited
  calls : before.calls <+: after.calls
  methods : ∀ {key entry}, before.method? key = some entry →
    ∃ later, after.method? key = some later ∧
      (entry.Stays later ∨ before.Bridges key entry later)

/-- Linked classes are retained, failed ones have failed for good, and errors are put at the end. -/
structure State.Retains (before after : State) : Prop where
  classes : ∀ {name cls}, before.class? name = some cls →
    ∃ record, after.class? name = some record ∧ cls.Retains record
  failed : ∀ {name}, before.status? name = some .failed → after.status? name = some .failed
  errors : before.errors <+: after.errors

/-- A class that has grown is retained if its methods are. -/
theorem ClassRecord.Grows.retains (grows : cls.Grows record)
    (methods : ∀ {key entry}, cls.method? key = some entry →
      ∃ later, record.method? key = some later ∧
        (entry.Stays later ∨ cls.Bridges key entry later)) : cls.Retains record where
  kind := grows.kind_eq
  superClass := grows.superClass_eq
  interfaces := by
    show record.fresh.interfaces = cls.interfaces
    rw [grows.fresh_eq]
    rfl
  ancestors := grows.ancestors_eq
  summary := by
    show record.fresh.summary = cls.summary
    rw [grows.fresh_eq]
    rfl
  fresh_eq := grows.fresh_eq
  uses := grows.uses
  hasInstances := grows.hasInstances
  creators := grows.creators
  inhabited := grows.inhabited
  calls := grows.calls
  methods := methods

theorem ClassRecord.Retains.refl (cls : ClassRecord) : cls.Retains cls :=
  (ClassRecord.Grows.refl cls).retains fun has => ⟨_, has, .inl (.refl _)⟩

theorem ClassRecord.Retains.trans {first second third : ClassRecord}
    (early : first.Retains second) (late : second.Retains third) : first.Retains third where
  kind := late.kind.trans early.kind
  superClass := late.superClass.trans early.superClass
  interfaces := late.interfaces.trans early.interfaces
  ancestors := late.ancestors.trans early.ancestors
  summary := late.summary.trans early.summary
  fresh_eq := late.fresh_eq.trans early.fresh_eq
  uses h := late.uses (early.uses h)
  hasInstances h := late.hasInstances (early.hasInstances h)
  creators := early.creators.trans late.creators
  inhabited := early.inhabited.trans late.inhabited
  calls := early.calls.trans late.calls
  methods {key entry} has := by
    obtain ⟨middle, has', become⟩ := early.methods has
    obtain ⟨final, has'', become'⟩ := late.methods has'
    refine ⟨final, has'', ?_⟩
    rcases become with stays | bridges
    · rcases become' with stays' | bridges'
      · exact .inl (stays.trans stays')
      · -- What is replaced has not been called, and so it has been the same before.
        obtain rfl := stays.eq_of_uncalled bridges'.isReached bridges'.callers
        exact .inr { bridges' with
          kind := early.kind ▸ bridges'.kind
          declared := early.fresh_eq ▸ bridges'.declared }
    · rcases become' with stays' | bridges'
      · exact .inr { bridges with
          id_eq := stays'.id_eq.trans bridges.id_eq
          isConcrete := stays'.isConcrete.trans bridges.isConcrete
          forwarder := by rw [stays'.forwarder]; exact bridges.forwarder }
      · -- A bridge is not abstract, so it is not replaced again.
        have concrete := bridges.isConcrete
        rw [MethodRecord.isConcrete, bridges'.isAbstract] at concrete
        simp at concrete

namespace State.Retains

theorem refl (state : State) : state.Retains state :=
  ⟨fun found => ⟨_, found, .refl _⟩, id, List.prefix_rfl⟩

theorem trans {first second third : State} (early : first.Retains second)
    (late : second.Retains third) : first.Retains third where
  classes found := by
    obtain ⟨middle, found', retains⟩ := early.classes found
    obtain ⟨record, found'', retains'⟩ := late.classes found'
    exact ⟨record, found'', retains.trans retains'⟩
  failed h := late.failed (early.failed h)
  errors := early.errors.trans late.errors

/-- What has grown is retained if the methods are. -/
theorem of_grows (grows : state.Grows next)
    (methods : ∀ {name cls key entry}, state.class? name = some cls →
      cls.method? key = some entry →
        ∃ later, next.method? ⟨name, key.space, key.name⟩ = some later ∧
          (entry.Stays later ∨ cls.Bridges key entry later)) : state.Retains next where
  classes {name cls} found := by
    obtain ⟨record, found', growth⟩ := grows.classes found
    refine ⟨record, found', growth.retains fun {key entry} has => ?_⟩
    obtain ⟨later, at_, become⟩ := methods found has
    rw [method?, found', Option.bind_some] at at_
    exact ⟨later, at_, become⟩
  failed := grows.failed
  errors := grows.errors

/-- Steps that leave the methods alone retain everything. -/
theorem of_method?_eq (grows : state.Grows next) (same : next.method? = state.method?) :
    state.Retains next := by
  refine of_grows grows fun {name cls key entry} found has => ⟨entry, ?_, .inl (.refl _)⟩
  rw [same, method?, found]
  exact has

end State.Retains

/-! ### Methods that nothing has called -/

/-- A method that is not reachable has no callers. -/
def State.Uncalled (state : State) : Prop :=
  ∀ {name cls key entry}, state.class? name = some cls → cls.method? key = some entry →
    entry.isReached = false → entry.callers = []

theorem Change.uncalled (change : Change setting state next) (uncalled : state.Uncalled) :
    next.Uncalled := by
  intro name record key entry found has unreached
  rcases change.class_cases found with before | ⟨_, fresh_eq⟩ | ⟨cls, _, _, found', update, _⟩
  · exact uncalled before has unreached
  · exact (ClassRecord.uncalled_of_declared (fresh_eq.symm ▸ has)).2
  · cases update with
    | use | creator | instances | inhabit | note => exact uncalled found' has unreached
    | call =>
      rw [ClassRecord.method?_withCall] at has
      split at has
      · cases has
        cases unreached
      · exact uncalled found' has unreached

theorem Moves.uncalled (moves : Moves setting state next) (uncalled : state.Uncalled) :
    next.Uncalled := by
  induction moves with
  | refl => exact uncalled
  | tail _ move ih =>
    cases move with
    | change change => exact change.uncalled ih
    | take => exact ih

/-- An entry that nothing has called is as its class declares it. -/
theorem ClassRecord.Valid.declares_of_uncalled (valid : cls.Valid setting)
    (has : cls.method? key = some entry) (unreached : entry.isReached = false)
    (uncalled : entry.callers = []) : cls.fresh.method? key = some entry := by
  cases valid.entries has with
  | @declared declared declares id_eq isPresent isAbstract forwarder =>
    obtain ⟨declared_id, present, plain⟩ := declared_shape declares
    obtain ⟨unreached', uncalled'⟩ := uncalled_of_declared declares
    have same_id : entry.id = declared.id := id_eq.trans declared_id.symm
    have entry_eq : entry = declared := by
      clear id_eq declared_id
      cases entry
      cases declared
      simp_all
    exact entry_eq ▸ declares
  | missing _ _ _ _ isReached | added _ _ _ _ _ _ _ _ _ _ isReached =>
    rw [unreached] at isReached
    cases isReached

/-! ### Bridges -/

/-- Default methods are declared, and so they do not have the name of a proxy. -/
theorem State.Valid.not_isProxy_of_defaultOwners (valid : state.Valid setting)
    (reserved : setting.world.ReservesProxies) (found : state.class? name = some cls)
    {first : ClassName} {others : List ClassName}
    (owners : state.defaultOwners name method = first :: others) : method.isProxy = false := by
  obtain ⟨_, interface, found', kind, has⟩ :=
    State.exists_of_defaultOwners valid.follows found owners
  rw [(valid.classes found').hasConcrete_eq (.inr kind)] at has
  obtain ⟨declared, declares, _⟩ := (Option.any_eq_true ..).1 has
  obtain ⟨summary, known, declaration, listed, same, _⟩ := ClassRecord.exists_declared declares
  rw [valid.follows.summary_eq found'] at known
  obtain ⟨space, rfl⟩ : declaration.space = .publicInstance ∧ declaration.name = method := by
    simpa [eq_comm] using same
  exact reserved known listed space

section

variable (valid : state.Valid setting)
  (reserved : setting.allow = true → setting.world.ReservesProxies) (uncalled : state.Uncalled)
  (explains : ∀ method, (method.isProxy && setting.allow) = false → state.Explains method)

include valid reserved uncalled explains

/-- A bridge that is added to a class without code for the method replaces at most an abstract
method that nothing has called. -/
theorem State.bridges_of_lacking (found : state.class? name = some cls)
    (has : cls.method? ⟨.publicInstance, method⟩ = some entry)
    (allowed : state.allowForwarders = true) (kind : cls.kind ≠ .interface)
    (lacks : ∀ owner, ¬ Implementor state.class? method name owner) {first : ClassName}
    {others : List ClassName} (owners : state.defaultOwners name method = first :: others)
    (cause : Cause) :
    cls.Bridges ⟨.publicInstance, method⟩ entry
      (MethodRecord.calledBy
        { id := ⟨name, .publicInstance, method⟩, forwarder := some (.bridge first) } cause) := by
  have isProxy : method.isProxy = false :=
    valid.not_isProxy_of_defaultOwners (reserved (valid.allow ▸ allowed)) found owners
  have explains := explains method (by simp [isProxy])
  have vague : entry.isConcrete = false := by
    by_contra concrete
    refine lacks name (.here found ?_)
    simpa [ClassRecord.hasConcrete, has] using concrete
  have unreached : entry.isReached = false := by
    by_contra reached
    have at_ : state.method? ⟨name, .publicInstance, method⟩ = some entry := by
      rw [method?, found]
      exact has
    rcases explains.vague at_ (by simpa using reached) vague with
      ⟨cause, reported⟩ | ⟨_, _, ⟨owner, implementor⟩ | ⟨bare, _⟩⟩
    · -- The class has been said to lack the method, although there are default methods.
      have no_owners := (explains.missing reported).2.owners
      rw [owners] at no_owners
      cases no_owners
    · exact lacks owner implementor
    · rw [allowed] at bare
      cases bare
  have uncalled := uncalled found has unreached
  have declares : cls.fresh.method? ⟨.publicInstance, method⟩ = some entry :=
    (valid.classes found).declares_of_uncalled has unreached uncalled
  obtain ⟨id_eq, isPresent, _⟩ := ClassRecord.declared_shape declares
  have named : cls.name = name := valid.follows.name_eq found
  exact {
    space := rfl
    kind := kind
    declared := declares
    isAbstract := by simpa [MethodRecord.isConcrete, isPresent] using vague
    isReached := unreached
    callers := uncalled
    id_eq := by
      rw [id_eq, ← named]
      rfl
    isConcrete := rfl
    forwarder := ⟨first, rfl⟩ }

/-- Where a call lands, the method stays or is replaced by a bridge. -/
theorem Landing.stays_or_bridges (found : state.class? owner = some cls)
    (landing : Landing state name cause key owner cls entry errors) {old : MethodRecord}
    (has : cls.method? key = some old) :
    old.Stays (entry.calledBy cause) ∨ cls.Bridges key old (entry.calledBy cause) := by
  have called : cls.method? key = some entry → old.Stays (entry.calledBy cause) := by
    intro own
    obtain rfl := Option.some.inj (has.symm.trans own)
    exact .calledBy old cause
  cases landing with
  | resolved resolved =>
    cases resolved with
    | inherited _ own | default _ _ _ _ own => exact .inl (called own)
    | missing =>
      rw [has, Option.getD_some]
      exact .inl (.calledBy old cause)
    | bridge allowed kind lacks owners =>
      exact .inr (State.bridges_of_lacking valid reserved uncalled explains found has allowed kind
        lacks owners cause)
  | own own => exact .inl (called own)
  | absent lacks | proxy _ _ _ lacks =>
    rw [lacks] at has
    cases has

/-- A call retains everything. -/
theorem State.Lands.retains (grows : state.Grows next) (lands : state.Lands name key cause next) :
    state.Retains next := by
  cases lands with
  | @intro owner cls entry errors found landing =>
  refine .of_grows grows fun {other record other_key old} found' has => ?_
  rw [method?_called found]
  by_cases at_ : other = owner ∧ other_key = key
  · obtain ⟨rfl, rfl⟩ := at_
    obtain rfl := Option.some.inj (found.symm.trans found')
    exact ⟨_, if_pos ⟨rfl, rfl⟩,
      landing.stays_or_bridges valid reserved uncalled explains found has⟩
  · refine ⟨old, (if_neg at_).trans ?_, .inl (.refl old)⟩
    rw [method?, found']
    exact has

end

/-! ### Runs -/

section

variable (fair : setting.IsFair) (full : ∀ fact, setting.facts fact)
  (valid : state.Valid setting)
  (reserved : setting.allow = true → setting.world.ReservesProxies) (uncalled : state.Uncalled)
  (explains : ∀ method, (method.isProxy && setting.allow) = false → state.Explains method)

include fair full valid reserved uncalled explains

/-- Doing a task retains everything. -/
theorem Effects.retains (justified : setting.Justifies task) (effects : Effects task state next) :
    state.Retains next := by
  induction effects with
  | refl => exact .refl _
  | @tail middle final early effect ih =>
    have changes := Effects.changes fair full valid justified early
    have valid' := Changes.valid fair changes valid
    have grows := Changes.grows (effect.changes fair full valid' justified)
    refine ih.trans ?_
    rcases effect.strokes_or_lands fair valid' justified with strokes | ⟨_, _, _, lands⟩
    · exact .of_method?_eq grows (Strokes.method?_eq strokes)
    · exact lands.retains valid' reserved (Moves.uncalled (Changes.moves changes) uncalled)
        (fun method direct => Effects.explains fair full valid justified direct early
          (explains method direct)) grows

omit valid in
/-- So does every turn of a run. -/
theorem Turn.retains (turn : Turn setting state next) : state.Retains next := by
  rcases turn.cases_perform fair with advances | ⟨task, rest, order, work, rfl⟩
  · refine .of_grows (Moves.grows (turn.moves fair)) fun {name cls key entry} found has =>
      ⟨entry, ?_, .inl (.refl _)⟩
    rw [State.method?, advances.stays found]
    exact has
  · obtain ⟨valid', consistent, justified⟩ := order.takes work
    have retains := Effects.retains fair full valid' reserved uncalled
      (fun method direct => (explains method direct).withWork rest) justified
      (State.effects_perform fair full valid' consistent justified)
    exact ⟨retains.classes, retains.failed, retains.errors⟩

theorem Turns.retains (turns : Turns setting state next) : state.Retains next := by
  induction turns with
  | refl => exact .refl _
  | tail early turn ih =>
    have moves := Turns.moves fair early
    exact ih.trans (turn.retains fair full reserved (Moves.uncalled moves uncalled)
      fun method direct => Turns.explains fair full valid direct early (explains method direct))

end

theorem Loader.reservesProxies_ofDecls {decls : List ClassDecl}
    (reserved : ∀ decl ∈ decls, ∀ method ∈ decl.summary.methods,
      method.space = .publicInstance → method.name.isProxy = false) :
    (Loader.ofDecls decls).knows.ReservesProxies := by
  intro name summary method known listed space
  rw [Loader.knows_ofDecls] at known
  obtain ⟨entry, found, rfl⟩ := Option.map_eq_some_iff.1 known
  have holds : (Loader.ofDecls decls).Holds name entry :=
    ⟨_, List.mem_singleton.2 rfl, found⟩
  exact reserved _ (Loader.mem_of_holds_ofDecls holds).1 method listed space

/-- In any stretch of a run, everything is retained, provided that no class declares a method by a
name that is reserved for proxies, if proxies may be added. So it is in every step. -/
theorem run_retains (reserved : allow = true → loader.knows.ReservesProxies) :
    (∀ {state next}, loader.Reaches allow requirement state →
      Turns (loader.settingFor allow requirement fun _ => True) state next → state.Retains next) ∧
    ∀ {history state before next after},
      Course allow requirement loader history state before →
        state.step before = (.ok next, after) → state.Retains next := by
  let setting := loader.settingFor allow requirement fun _ => True
  have full : ∀ fact, setting.facts fact := fun _ => trivial
  have stretch : ∀ {state next}, loader.Reaches allow requirement state →
      Turns setting state next → state.Retains next := by
    intro state next reaches turns
    have fair := reaches.isFair
    have blank : State.Valid setting { allowForwarders := allow } := State.valid_empty setting
    refine Turns.retains fair full reaches.valid reserved ?_ (fun method direct => ?_) turns
    · refine Moves.uncalled (Turns.moves fair reaches.turns) fun found => ?_
      rw [State.class?_blank] at found
      cases found
    · exact Turns.explains fair full blank direct reaches.turns
        (State.explains_empty setting method)
  refine ⟨stretch, fun course steps => ?_⟩
  have turns := State.turns_step course.reaches.isFair course.inOrder course.knows.symm steps
  exact stretch course.reaches turns

/-- A class that declares the default method of its interface again, as abstract. -/
def abstracting : List ClassDecl :=
  [.ofMethods .object .plain [] [],
    .ofMethods ⟨"I"⟩ .interface [] [.plain .publicInstance ⟨"foo__V"⟩ (some .skip)],
    .ofMethods ⟨"A"⟩ .plain [.object, ⟨"I"⟩] [.plain .publicInstance ⟨"foo__V"⟩ none]]

/-- The class is linked, and then the method is called on it. -/
def callAbstract : Requirement :=
  .every [.typeData "test" ⟨"A"⟩, .callDirect "test" ⟨"A"⟩ ⟨"foo__V"⟩]

/-- A step of a run over these classes puts a bridge in place of the abstract method. Everything
else stays. -/
theorem run_retains_bridged :
    let method : MethodId := ⟨⟨"A"⟩, .publicInstance, ⟨"foo__V"⟩⟩
    ∃ history state before next after,
      Course true callAbstract (Loader.ofDecls abstracting) history state before ∧
        state.step before = (.ok next, after) ∧ state.Retains next ∧
          (state.method? method).map MethodRecord.isAbstract = some true ∧
            (next.method? method).map MethodRecord.forwarder = some (some (.bridge ⟨"I"⟩)) := by
  intro method
  let loader := Loader.ofDecls abstracting
  let root : ClassSummary := (ClassDecl.ofMethods .object .plain [] []).summary
  have reserved : loader.knows.ReservesProxies :=
    Loader.reservesProxies_ofDecls (by decide +kernel)
  have told : ((State.start true root callAbstract loader.entryPoints).walk 5
      (loader.loadSummary .object).2).bind (fun pair =>
        (pair.1.step pair.2).1.toOption.map fun next =>
          ((pair.1.method? method).map MethodRecord.isAbstract,
            (next.method? method).map MethodRecord.forwarder)) =
      some (some true, some (some (.bridge ⟨"I"⟩))) := by decide +kernel
  obtain ⟨⟨state, before⟩, walks, told⟩ := Option.bind_eq_some_iff.1 told
  obtain ⟨next, after, steps, told⟩ := exists_of_toOption_map told
  obtain ⟨abstract, bridge⟩ := Prod.mk.inj told
  have loads : loader.loadSummary .object = (.ok (some root), (loader.loadSummary .object).2) :=
    Prod.ext rfl rfl
  obtain ⟨history, course⟩ := (Course.start loads rfl).walk 5 walks
  exact ⟨history, state, before, next, after, course, steps,
    (run_retains fun _ => reserved).2 course steps, abstract, bridge⟩

end ClassLinker
