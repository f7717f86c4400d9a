import ClassLinker.Proofs.Outcomes
import ClassLinker.Proofs.Summaries

/-!
# The analysis is exact

Without bridges and proxies, an analysis finds the facts of the least set that the rules of
reachability close: nothing that it says is more than that, for it can be checked against any closed
set (`State.Valid`), and what it says is closed itself (`State.InOrder.closed_tells`).

The one thing asked for is that the summaries have been read off declarations that list no method
twice (`Universe.IsDeclared`).
-/

namespace ClassLinker

variable {setting : Setting} {state : State} {loader after : Loader}
variable {name other owner : ClassName} {cls record : ClassRecord} {task : Task}
variable {method : MethodName}

/-! ### Summaries of declarations -/

/-- Every summary is that of a declaration that lists no method twice. -/
def Universe.IsDeclared (world : Universe) : Prop :=
  ∀ {name : ClassName} {summary : ClassSummary}, world name = some summary →
    ∃ decl : ClassDecl, summary = decl.summary ∧ decl.methodKeys.Nodup

theorem Universe.IsDeclared.isCoherent {world : Universe} (declared : world.IsDeclared) :
    world.IsCoherent := by
  intro name summary key entry method known found lists isAbstract
  obtain ⟨decl, rfl, nodup⟩ := declared known
  obtain ⟨source, mem, rfl, rfl⟩ := exists_of_getElem?_declaredMethods found
  obtain ⟨listed, space, name⟩ := ClassSummary.mem_of_method? lists
  obtain rfl := ClassDecl.eq_of_mem_summary nodup listed mem space name
  obtain ⟨method, _, rfl⟩ := List.mem_map.1 mem
  have none : method.body = none := Option.isNone_iff_eq_none.1 isAbstract
  simp only [MethodDecl.summary, none]
  rfl

theorem Loader.isDeclared_ofDecls {decls : List ClassDecl}
    (nodup : ∀ decl ∈ decls, decl.methodKeys.Nodup) : (Loader.ofDecls decls).knows.IsDeclared := by
  intro name summary known
  rw [Loader.knows_ofDecls] at known
  obtain ⟨entry, found, rfl⟩ := Option.map_eq_some_iff.1 known
  have holds : (Loader.ofDecls decls).Holds name entry :=
    ⟨_, List.mem_singleton.2 rfl, found⟩
  exact ⟨entry.decl, rfl, nodup _ (Loader.mem_of_holds_ofDecls holds).1⟩

namespace State

/-! ### What an analysis tells -/

/-- The method is reachable, exists and is not abstract. -/
def Reaches (state : State) (method : MethodId) : Prop :=
  ∃ entry, state.method? method = some entry ∧ entry.isReached = true ∧ entry.isConcrete = true

/-- What the state says. Something that is asked for of a class that cannot be linked is met. -/
def Tells (state : State) (world : Universe) : Fact → Prop
  | .asked name demand => ∀ cls, world.classes name = some cls → state.Meets name demand
  | .used name use => ∃ cls, state.class? name = some cls ∧ cls.uses.contains use = true
  | .inhabited name => ∃ cls, state.class? name = some cls ∧ cls.hasInstances = true
  | .reached method => state.Reaches method

theorem IsReached.reaches
    (reached : state.IsReached ⟨owner, .publicInstance, method⟩)
    (found : state.class? owner = some cls) (has : cls.hasConcrete method = true) :
    state.Reaches ⟨owner, .publicInstance, method⟩ := by
  obtain ⟨entry, h, isReached⟩ := reached
  refine ⟨entry, h, isReached, ?_⟩
  obtain ⟨linked, found', own⟩ := Option.bind_eq_some_iff.1 h
  obtain rfl := Option.some.inj (found.symm.trans found')
  obtain ⟨other, own', concrete⟩ := (Option.any_eq_true ..).1 has
  obtain rfl := Option.some.inj (own.symm.trans own')
  exact concrete

/-- If a call is answered, then what implements the method is reachable. -/
theorem Answered.reaches (fair : setting.IsFair) (valid : state.Valid setting)
    (bare : setting.allow = false) (found : state.class? name = some cls)
    (answered : state.Answered name method)
    (implements_ : Implements setting.world.classes name method owner) :
    state.Reaches ⟨owner, .publicInstance, method⟩ := by
  have same : ∀ {other}, Implements state.class? name method other → other = owner :=
    fun h => (valid.implements fair bare found h).unique implements_
  cases answered with
  | implemented implementor reached =>
    obtain rfl := same (.inl implementor)
    obtain ⟨record, found', has⟩ := implementor.has_code
    exact reached.reaches found' has
  | @default first others lacks owners _ reached =>
    have head : (defaultOwnersIn state.class? name method).head? = some first := by
      rw [← state.defaultOwners_eq, owners]
      rfl
    obtain rfl := same (.inr ⟨lacks, head⟩)
    have mem := List.mem_of_mem_head? (Option.mem_def.2 head)
    obtain ⟨_, record, found', _, has⟩ := exists_of_mem_defaultOwnersIn valid.follows found mem
    exact reached.reaches found' has
  | missing lacks owners =>
    have same : Unextended state.class? name method := fun _ _ _ _ record found' =>
      (valid.classes found').hasConcrete_eq (.inl bare) method
    rcases implements_ with implementor | ⟨_, head⟩
    · exact absurd (implementor.of_declared valid.follows fair.rooted found same) (lacks _)
    · rw [← valid.defaultOwners_eq found, owners] at head
      cases head

/-- Without bridges and proxies, a reachable method that is not abstract owes what it demands. -/
theorem Reaches.owes (valid : state.Valid setting) (bare : setting.allow = false) {id : MethodId}
    (reaches : state.Reaches id) (found : setting.world.classes id.owner = some cls)
    {summary : ClassSummary} {declared : MethodSummary} (known : cls.summary = some summary)
    (declares : summary.method? id.space id.name = some declared) {demand : Demand}
    (demands : (other, demand) ∈ declared.demands.toList) :
    state.Owes { cls := other, action := .fulfil demand, cause := .method id } := by
  obtain ⟨entry, h, reached, concrete⟩ := reaches
  obtain ⟨record, found', has⟩ := Option.bind_eq_some_iff.1 h
  obtain rfl := valid.fresh_eq_of_linked found found'
  have present : entry.isPresent = true := (Bool.and_eq_true_iff.1 concrete).1
  have forwarder : entry.forwarder = none := by
    cases (valid.classes found').entries has with
    | declared _ _ _ _ forwarder | missing _ _ _ forwarder => exact forwarder
    | added allowed => rw [bare] at allowed; cases allowed
  exact valid.owes_body found' has reached present forwarder known declares demands

section

variable (fair : setting.IsFair) (order : state.InOrder setting)

include order

/-- What follows as a demand from what is said in the end is met. -/
theorem InOrder.tells_asked (settled : state.isSettled = true) (bare : setting.allow = false)
    {demand : Demand}
    (rule : Rule setting.program (state.Tells setting.world) (.asked name demand)) :
    state.Tells setting.world (.asked name demand) := by
  have valid := order.valid
  intro cls linked
  cases rule with
  | required leaf action =>
    exact order.meets settled (order.accounted (.inl (List.mem_append_left _ leaf))) action linked
  | @initializer _ record _ entry found known initializes =>
    have present : record.isPresent = true := by rw [ClassRecord.isPresent, known]; rfl
    have name_eq : record.name = name := (Universe.classes_eq_some.1 found).name_eq
    have mem := mem_entryTasks_of_initializer known initializes
    rw [name_eq] at mem
    exact order.meets_entry settled entry found present mem rfl linked
  | @exported _ _ record _ _ _ entry found known mem demands =>
    have present : record.isPresent = true := by rw [ClassRecord.isPresent, known]; rfl
    exact order.meets_entry settled entry found present
      (mem_entryTasks_of_export known mem demands) rfl linked
  | body premise found known declares demands =>
    exact order.meets_owed settled (premise.owes valid bare found known declares demands) rfl linked
  | @member _ _ _ summary _ _ premise found known mem demands =>
    obtain ⟨record, found', has⟩ := premise
    obtain rfl := valid.fresh_eq_of_linked found found'
    have known : record.summary = some summary := known
    exact order.meets_owed settled
      (.instances found' has (mem_instanceDues_of_member known mem demands)) rfl linked
  | @fieldData _ _ _ summary premise found known mem =>
    obtain ⟨record, found', has⟩ := premise
    obtain rfl := valid.fresh_eq_of_linked found found'
    have known : record.summary = some summary := known
    exact order.meets_owed settled (.instances found' has (mem_instanceDues_of_field known mem)) rfl
      linked
  | superInstances premise found kind extends_ =>
    obtain ⟨record, found', uses⟩ := premise
    obtain rfl := valid.fresh_eq_of_linked found found'
    have kind : record.kind.isDefinedJS = true := kind
    have extends_ : record.superClass = some name := extends_
    have has := (order.consistent.created found' uses).hasInstances
      (ClassKind.isOrdinary_of_isDefinedJS kind)
    exact order.meets_owed settled
      (.instances found' has (mem_instanceDues_of_superClass kind extends_)) rfl linked
  | moduleConstructor premise found kind =>
    obtain ⟨record, found', uses⟩ := premise
    obtain rfl := valid.fresh_eq_of_linked found found'
    obtain ⟨cause, covers⟩ := order.modules found' uses kind
    exact order.meets settled covers rfl linked

/-- What follows as a way of use is noted. -/
theorem InOrder.tells_used {use : Use}
    (rule : Rule setting.program (state.Tells setting.world) (.used name use)) :
    state.Tells setting.world (.used name use) := by
  have valid := order.valid
  cases rule with
  | plainUse premise found present notInstances notModule =>
    obtain ⟨record, found', meets⟩ := premise _ found
    obtain rfl := valid.fresh_eq_of_linked found found'
    refine ⟨record, found', ?_⟩
    have fulfils := meets present
    cases use with
    | instances => exact absurd rfl notInstances
    | module => exact absurd rfl notModule
    | tests | typeData | staticFields | privateFields => exact fulfils
  | instances premise found present kind =>
    obtain ⟨record, found', meets⟩ := premise _ found
    obtain rfl := valid.fresh_eq_of_linked found found'
    exact ⟨record, found', meets present kind⟩
  | module premise found present kind =>
    obtain ⟨record, found', meets⟩ := premise _ found
    obtain rfl := valid.fresh_eq_of_linked found found'
    refine ⟨record, found', (meets present).resolve_right ?_⟩
    rintro ⟨other, _⟩
    rw [show record.kind.isModule = true from kind] at other
    cases other
  | moduleInstance premise =>
    obtain ⟨record, found, uses⟩ := premise
    exact ⟨record, found, (order.consistent.read found uses).2⟩

/-- The classes that follow to have instances are known to have them. -/
theorem InOrder.tells_inhabited
    (rule : Rule setting.program (state.Tells setting.world) (.inhabited name)) :
    state.Tells setting.world (.inhabited name) := by
  have valid := order.valid
  cases rule with
  | inhabitedAbove premise found kind mem =>
    obtain ⟨record, found', uses⟩ := premise
    obtain rfl := valid.fresh_eq_of_linked found found'
    obtain ⟨above, linked, has, _⟩ := (order.consistent.created found' uses).above kind mem
    exact ⟨above, linked, has⟩
  | inhabitedJS premise found kind =>
    obtain ⟨record, found', uses⟩ := premise
    obtain rfl := valid.fresh_eq_of_linked found found'
    exact ⟨record, found', (order.consistent.created found' uses).hasInstances kind⟩

include fair

/-- Without bridges and proxies, the methods that follow to be reachable are. -/
theorem InOrder.tells_reached (bare : setting.allow = false) {id : MethodId}
    (rule : Rule setting.program (state.Tells setting.world) (.reached id)) :
    state.Tells setting.world (.reached id) := by
  have valid := order.valid
  have consistent := order.consistent
  cases rule with
  | dispatched premise found present notJS created receiver kind mem implements_ =>
    obtain ⟨record, found', meets⟩ := premise _ found
    obtain rfl := valid.fresh_eq_of_linked found found'
    obtain ⟨cause, noted⟩ := meets present notJS
    obtain ⟨below, found'', uses⟩ := created
    obtain rfl := valid.fresh_eq_of_linked receiver found''
    -- The class above has the call noted and the one below among its residents.
    obtain ⟨above, linked, _, resident⟩ := (consistent.created found'' uses).above kind mem
    obtain rfl := Option.some.inj (found'.symm.trans linked)
    have dispatched := consistent.dispatched found' resident noted
    rw [Dispatched, valid.allow, bare, Bool.and_false, if_neg Bool.false_ne_true] at dispatched
    exact dispatched.reaches fair valid bare found'' implements_
  | calledDirect premise found present implements_ =>
    obtain ⟨record, found', meets⟩ := premise _ found
    obtain rfl := valid.fresh_eq_of_linked found found'
    have answered := meets present
    simp only [Fulfils, if_true, valid.follows.name_eq found'] at answered
    exact answered.reaches fair valid bare found' implements_
  | @calledOwn name _ key entry premise found present own declares concrete =>
    obtain ⟨record, found', meets⟩ := premise _ found
    obtain rfl := valid.fresh_eq_of_linked found found'
    have reached := meets present
    simp only [Fulfils, own, if_false, ClassRecord.idOf, valid.follows.name_eq found'] at reached
    obtain ⟨later, h, isReached⟩ := reached
    refine ⟨later, h, isReached, ?_⟩
    obtain ⟨linked, found'', has⟩ := Option.bind_eq_some_iff.1 h
    obtain rfl := Option.some.inj (found'.symm.trans found'')
    have has : record.method? key = some later := has
    have declares : record.fresh.method? key = some entry := declares
    rw [((valid.classes found').entries has).isConcrete_eq (.inl bare), declares, Option.any_some]
    exact concrete

/-- What an analysis without bridges and proxies says in the end is closed under the rules. -/
theorem InOrder.closed_tells (settled : state.isSettled = true) (bare : setting.allow = false) :
    Closed setting.program (state.Tells setting.world) := by
  intro fact rule
  cases fact with
  | asked => exact order.tells_asked settled bare rule
  | used => exact order.tells_used rule
  | inhabited => exact order.tells_inhabited rule
  | reached => exact order.tells_reached fair bare rule

end

/-- What an analysis without bridges and proxies says in the end is what follows by the rules. -/
theorem InOrder.tells_iff (order : state.InOrder setting) (settled : state.isSettled = true)
    (fair : setting.IsFair) (bare : setting.allow = false)
    (least : setting.facts = Least setting.program) :
    (∀ name use, (∃ cls, state.class? name = some cls ∧ cls.uses.contains use = true) ↔
        Least setting.program (.used name use)) ∧
      (∀ name, (∃ cls, state.class? name = some cls ∧ cls.hasInstances = true) ↔
        Least setting.program (.inhabited name)) ∧
      ∀ id, state.Reaches id ↔ Least setting.program (.reached id) := by
  have valid := order.valid
  have complete := fun fact least =>
    (least : Least setting.program fact) _ (order.closed_tells fair settled bare)
  refine ⟨fun name use => ⟨?_, complete (.used name use)⟩,
    fun name => ⟨?_, complete (.inhabited name)⟩, fun id => ⟨?_, complete (.reached id)⟩⟩
  · rintro ⟨cls, found, uses⟩
    have fact := ((valid.classes found).used uses).2
    rwa [least, valid.follows.name_eq found] at fact
  · rintro ⟨cls, found, has⟩
    have fact := (valid.classes found).inhabited has
    rwa [least, valid.follows.name_eq found] at fact
  · rintro ⟨entry, h, reached, concrete⟩
    obtain ⟨cls, found, has⟩ := Option.bind_eq_some_iff.1 h
    have fact := (valid.classes found).reached bare has reached concrete
    rw [least, ClassRecord.idOf, valid.follows.name_eq found] at fact
    exact fact

end State

/-- The program that an analysis of the classes of a loader is about. -/
noncomputable def Loader.program (loader : Loader) (requirement : Requirement) : Program where
  classes := loader.knows.classes
  requirement := requirement
  entryPoints := loader.entryPoints

/-- Nothing follows by the rules from nothing. -/
theorem not_least_of_idle {program : Program} (required : program.requirement.tasks false = [])
    (entered : program.entryPoints = []) (fact : Fact) : ¬ Least program fact := by
  intro least
  refine least (fun _ => False) fun fact rule => ?_
  cases rule with
  | required leaf => rw [required] at leaf; cases leaf
  | initializer entry | exported entry => rw [entered] at entry; cases entry
  | body premise | member premise | fieldData premise | superInstances premise
  | moduleConstructor premise | plainUse premise | instances premise | module premise
  | moduleInstance premise | inhabitedAbove premise | inhabitedJS premise | dispatched premise
  | calledDirect premise | calledOwn premise => exact premise

/-- Without bridges and proxies, the ways in which classes are used, the classes that have instances
and the reachable methods with code are those that follow by the rules of reachability. -/
theorem analyze_exact {requirement : Requirement} {analysis : Analysis}
    (rooted : loader.knows.IsRooted) (declared : loader.knows.IsDeclared)
    (ends : analyze false requirement loader = (.ok analysis, after)) :
    (∀ name use, (∃ cls, analysis.class? name = some cls ∧ cls.uses.contains use = true) ↔
        Least (loader.program requirement) (.used name use)) ∧
      (∀ name, (∃ cls, analysis.class? name = some cls ∧ cls.hasInstances = true) ↔
        Least (loader.program requirement) (.inhabited name)) ∧
      ∀ id, (∃ entry, analysis.method? id = some entry ∧ entry.isReached = true ∧
          entry.isConcrete = true) ↔
        Least (loader.program requirement) (.reached id) := by
  rcases (analyze_cases ends).2 with ⟨required, entered, rfl⟩ | ⟨unrooted, _⟩ | ⟨_, runs⟩
  · have idle := @not_least_of_idle (loader.program requirement) required entered
    have no_class : ∀ name, ({} : Analysis).class? name = none :=
      fun _ => Std.ExtTreeMap.getElem?_empty
    refine ⟨fun name use => ⟨?_, fun least => (idle _ least).elim⟩,
      fun name => ⟨?_, fun least => (idle _ least).elim⟩,
      fun id => ⟨?_, fun least => (idle _ least).elim⟩⟩
    · rintro ⟨cls, found, _⟩
      rw [no_class] at found; cases found
    · rintro ⟨cls, found, _⟩
      rw [no_class] at found; cases found
    · rintro ⟨entry, found, _⟩
      rw [Analysis.method?, no_class] at found; cases found
  · exact absurd rooted unrooted
  · let setting := loader.settingFor false requirement (Least (loader.program requirement))
    have fair : setting.IsFair :=
      ⟨rooted, closed_least _, .inr ⟨rfl, declared.isCoherent⟩⟩
    obtain ⟨state, order, settled, rfl⟩ := runs _ fair
    obtain ⟨used, inhabited, reached⟩ := order.tells_iff settled fair rfl rfl
    have method?_result : ∀ id, state.result.method? id = state.method? id := fun id => by
      rw [Analysis.method?, State.class?_result, State.method?]
    simp only [State.class?_result, method?_result]
    exact ⟨used, inhabited, reached⟩

/-- A class of which one method is called and another one is not. -/
def calledOnce : List ClassDecl :=
  [.ofMethods .object .plain [] [],
    .ofMethods ⟨"A"⟩ .plain [.object]
      [.plain .constructor .defaultConstructor (some .skip),
        .plain .publicInstance ⟨"called__V"⟩ (some .skip),
        .plain .publicInstance ⟨"unused__V"⟩ (some .skip)]]

theorem analyze_exact_calledOnce :
    let requirement : Requirement :=
      .every [.instances "test" ⟨"A"⟩ .defaultConstructor, .call "test" ⟨"A"⟩ ⟨"called__V"⟩]
    let program := (Loader.ofDecls calledOnce).program requirement
    Least program (.reached ⟨⟨"A"⟩, .publicInstance, ⟨"called__V"⟩⟩) ∧
      ¬ Least program (.reached ⟨⟨"A"⟩, .publicInstance, ⟨"unused__V"⟩⟩) := by
  intro requirement program
  have rooted : (Loader.ofDecls calledOnce).knows.IsRooted :=
    ⟨(ClassDecl.ofMethods .object .plain [] []).summary, by decide +kernel, rfl⟩
  have declared : (Loader.ofDecls calledOnce).knows.IsDeclared :=
    Loader.isDeclared_ofDecls (by decide +kernel)
  let isReached := fun (analysis : Analysis) (name : MethodName) =>
    ((analysis.method? ⟨⟨"A"⟩, .publicInstance, name⟩).map fun method =>
      method.isReached && method.isConcrete)
  have told : (analyze false requirement (Loader.ofDecls calledOnce)).1.toOption.map
      (fun analysis => (isReached analysis ⟨"called__V"⟩, isReached analysis ⟨"unused__V"⟩)) =
        some (some true, some false) := by
    decide +kernel
  generalize ends : analyze false requirement (Loader.ofDecls calledOnce) = outcome at told
  obtain ⟨_ | analysis, after⟩ := outcome
  · cases told
  · have reached_iff := (analyze_exact rooted declared ends).2.2
    obtain ⟨called, unused⟩ := Prod.mk.inj (Option.some.inj told)
    refine ⟨(reached_iff _).1 ?_, fun least => ?_⟩
    · obtain ⟨method, found, flags⟩ := Option.map_eq_some_iff.1 called
      exact ⟨method, found, Bool.and_eq_true_iff.1 flags⟩
    · obtain ⟨method, found, flags⟩ := (reached_iff _).2 least
      obtain ⟨other, found', no⟩ := Option.map_eq_some_iff.1 unused
      obtain rfl := Option.some.inj (found.symm.trans found')
      rw [flags.1, flags.2] at no
      cases no

end ClassLinker
