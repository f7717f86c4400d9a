import ClassLinker.Proofs.Courses
import ClassLinker.Proofs.Defaults
import ClassLinker.Proofs.Forwarders
import ClassLinker.Proofs.ProxyNames
import ClassLinker.Proofs.Replays
import ClassLinker.Proofs.Serving

/-!
# Code behind proxies

The target of a reflective proxy is looked for in the super classes of a class and then in all its
ancestors, and calling the target looks for code in the super classes and then for default methods.
Both searches agree: wherever a class declares the target, it is one of the super classes or an
interface, so that the call finds code.

* `State.FindsCode`: resolution leads to code, inherited or through a bridge. So it does wherever
  some ancestor declares code (`State.Valid.findsCode`), and nothing is reported as missing;
* `State.InOrder.hasCode`: in the end the target of every reachable proxy has its code reachable;
* `proxies_have_code` is about all states of a run, and about its result.
-/

namespace ClassLinker

variable {setting : Setting} {state : State}
variable {name owner : ClassName} {cls : ClassRecord} {method proxy target : MethodName}
variable {cause : Cause} {requirement : Requirement} {loader : Loader}

/-! ### Code that is offered -/

namespace State

/-- Resolving the method for instances of the class leads to code: some that the class has or
inherits, or the first of the default methods, through a bridge that is added. -/
inductive FindsCode (state : State) (name : ClassName) (method : MethodName) (cause : Cause) : Prop
  | inherited {owner : ClassName} (implementor : Implementor state.class? method name owner)
      (resolves : state.resolve name method cause = (⟨owner, .publicInstance, method⟩, state))
  | bridged {first : ClassName} {others : List ClassName}
      (lacks : ∀ owner, ¬ Implementor state.class? method name owner)
      (owners : state.defaultOwners name method = first :: others)
      (resolves : state.resolve name method cause =
        (state.extend [] (conflictErrors method (first :: others) cause)).addForwarder name method
          (.bridge first))

/-- Nothing is reported as missing where code is found. -/
theorem FindsCode.silent (finds : state.FindsCode name method cause) {id : MethodId} {other : Cause}
    (mem : .missingMethod id other ∈ (state.resolve name method cause).2.errors) :
    .missingMethod id other ∈ state.errors := by
  cases finds with
  | inherited _ resolves =>
    rw [resolves] at mem
    exact mem
  | bridged _ _ resolves =>
    rw [resolves, errors_addForwarder] at mem
    exact (List.mem_append.1 mem).resolve_right (silent_conflictErrors _ _ _ _ _)

section

variable (valid : state.Valid setting) (fair : setting.IsFair)
  (found : state.class? name = some cls) (family : cls.kind.isJS = false)
  (offers : setting.Offers name method)

include valid fair found family offers

/-- Code that is declared above a class is inherited, or a default method. -/
theorem Valid.not_lacksCode : ¬ state.LacksCode name method := by
  rintro ⟨lacks, no_owners⟩
  obtain ⟨owner, mem, record, above, has⟩ := valid.exists_of_offers found offers
  have code := (valid.classes above).hasConcrete_of_fresh has
  have present := (valid.classes above).isPresent_of_hasConcrete code
  -- Apart from the super classes, only interfaces are above a class outside of JavaScript.
  by_cases leads : Relation.ReflTransGen (SuperIn state.class?) name owner
  · obtain ⟨nearest, implementor⟩ := exists_implementor_of_superIn leads above code
    exact lacks nearest implementor
  · have kind := valid.follows.kind_of_ancestor fair.rooted found family mem leads above present
    rw [state.defaultOwners_eq, defaultOwnersIn_eq_nil valid.follows fair.rooted found] at no_owners
    rw [no_owners owner mem record above kind] at code
    cases code

/-- So a call finds it. -/
theorem Valid.findsCode (allowed : setting.allow = true) (kind : cls.kind ≠ .interface)
    (cause : Cause) : state.FindsCode name method cause := by
  cases inherited : state.superImplementor? name method with
  | some owner =>
    exact .inherited ((superImplementor?_eq_some valid.follows fair.rooted found).1 inherited)
      (resolve_of_inherited inherited cause)
  | none =>
    have lacks := (superImplementor?_eq_none valid.follows fair.rooted found).1 inherited
    cases owners : state.defaultOwners name method with
    | nil => exact absurd ⟨lacks, owners⟩ (valid.not_lacksCode fair found family offers)
    | cons first others =>
      refine .bridged lacks owners ?_
      rw [resolve_eq found inherited owners, if_neg]
      simp [kind, valid.allow, allowed]

end

end State

theorem ClassKind.isOrdinary_cases {kind : ClassKind} (ordinary : kind.isOrdinary = true) :
    kind.isJS = false ∧ kind ≠ .interface := by
  cases kind <;> simp_all [isOrdinary, isJS]

/-! ### The end of a run -/

/-- The method that implements the public method for the class is reachable, and if that is a
bridge, so is the default method that it calls. -/
def Analysis.HasCode (analysis : Analysis) (name : ClassName) (method : MethodName) : Prop :=
  ∃ owner entry, Implementor analysis.class? method name owner ∧
    analysis.method? ⟨owner, .publicInstance, method⟩ = some entry ∧ entry.isReached = true ∧
      ∀ interface, entry.forwarder = some (.bridge interface) →
        analysis.IsReached ⟨interface, .publicInstance, method⟩

namespace State

/-- There is a reason for every public method that has been added to a class. -/
theorem InOrder.fits (order : state.InOrder setting) (fair : setting.IsFair) {entry : MethodRecord}
    {forwarder : Forwarder} (found : state.class? name = some cls)
    (has : cls.method? ⟨.publicInstance, method⟩ = some entry)
    (added : entry.forwarder = some forwarder) : state.Fits setting name method forwarder :=
  bridged_of_reached fair order.reached ⟨name, .publicInstance, method⟩ forwarder
    (forwarder?_eq_some.2 ⟨cls, entry, found, has, added⟩)

section

variable (order : state.InOrder setting) (settled : state.isSettled = true)

include order settled

/-- The default method that a reachable bridge calls is reachable. -/
theorem InOrder.reached_of_bridge (fair : setting.IsFair) {entry : MethodRecord}
    {interface : ClassName} (found : state.class? owner = some cls)
    (has : cls.method? ⟨.publicInstance, method⟩ = some entry) (reached : entry.isReached = true)
    (bridge : entry.forwarder = some (.bridge interface)) :
    state.IsReached ⟨interface, .publicInstance, method⟩ := by
  have valid := order.valid
  obtain ⟨_, first, _⟩ := order.fits fair found has bridge
  have offered : interface ∈ defaultOwnersIn state.class? owner method := by
    rw [← state.defaultOwners_eq, valid.defaultOwners_eq found]
    exact List.mem_of_head? first
  obtain ⟨_, record, above, _, code⟩ := exists_of_mem_defaultOwnersIn valid.follows found offered
  have named : entry.id = cls.idOf ⟨.publicInstance, method⟩ :=
    ((valid.classes found).entries has).id_eq
  let due : Task :=
    { cls := interface
      action := .fulfil (.callDirect ⟨.publicInstance, method⟩)
      cause := .method entry.id }
  have owes : state.Owes due := by
    refine .body found has reached ?_
    simp only [methodTasks, bridge, named, ClassRecord.idOf, due]
    exact List.mem_cons_self
  obtain ⟨_, found', fulfils⟩ := order.meets_owed settled owes rfl (valid.follows.classes_eq above)
  obtain rfl := Option.some.inj (above.symm.trans found')
  have answered := fulfils ((valid.classes above).isPresent_of_hasConcrete code)
  simp only [Fulfils, if_true] at answered
  rw [valid.follows.name_eq above] at answered
  have own : Implementor state.class? method interface interface := .here above code
  cases answered with
  | implemented implementor reached =>
    obtain rfl := own.unique implementor
    exact reached
  | default lacks | missing lacks => exact absurd own (lacks interface)

/-- What a reachable proxy calls has been dispatched. -/
theorem InOrder.dispatched_of_proxy {entry : MethodRecord} (found : state.class? name = some cls)
    (has : cls.method? ⟨.publicInstance, proxy⟩ = some entry) (reached : entry.isReached = true)
    (proxied : entry.forwarder = some (.proxy target)) :
    setting.allow = true ∧ cls.kind.isOrdinary = true ∧ state.Dispatched name target := by
  have form := (order.valid.classes found).entries has
  have named : cls.name = name := order.valid.follows.name_eq found
  obtain ⟨allowed, present, kind⟩ :
      setting.allow = true ∧ cls.isPresent = true ∧ cls.kind.isOrdinary = true := by
    cases form with
    | declared _ _ _ _ own | missing _ _ _ own => cases own.symm.trans proxied
    | added allowed _ present _ ordinary _ _ _ _ added =>
      exact ⟨allowed, present, ordinary target (Option.some.inj (added.symm.trans proxied))⟩
  let due : Task := { cls := name, action := .callExact target, cause := .method entry.id }
  have owes : state.Owes due := by
    refine .body found has reached ?_
    simp only [methodTasks, proxied, form.id_eq, ClassRecord.idOf, ClassRecord.fresh, named, due]
    exact List.mem_cons_self
  rcases order.settles settled (order.accounted (.inr owes)) with ⟨_, found', _, done⟩ | failed
  · obtain rfl := Option.some.inj (found.symm.trans found')
    exact ⟨allowed, kind, done present⟩
  · rw [class?_eq_some.1 found] at failed
    cases failed

/-- The target of a reachable proxy is code of some ancestor, which is reachable. -/
theorem InOrder.hasCode (fair : setting.IsFair) {entry : MethodRecord}
    (found : state.class? name = some cls)
    (has : cls.method? ⟨.publicInstance, proxy⟩ = some entry) (reached : entry.isReached = true)
    (proxied : entry.forwarder = some (.proxy target)) :
    target.isProxy = false ∧ ¬ state.LacksCode name target ∧ state.result.HasCode name target := by
  have valid := order.valid
  obtain ⟨_, continues, offers⟩ := order.fits fair found has proxied
  have direct := MethodName.isProxy_of_matchesProxy continues
  obtain ⟨allowed, kind, dispatched⟩ := order.dispatched_of_proxy settled found has reached proxied
  obtain ⟨family, not_interface⟩ := ClassKind.isOrdinary_cases kind
  have answered : state.Answered name target := by
    simpa [Dispatched, direct] using dispatched
  have lacks := valid.not_lacksCode fair found family offers
  refine ⟨direct, lacks, ?_⟩
  have same : state.result.class? = state.class? := funext state.class?_result
  cases answered with
  | @implemented owner implementor reached =>
    obtain ⟨record, found', code, has', reached'⟩ := isReached_iff.1 reached
    refine ⟨owner, code, same ▸ implementor, ?_, reached', fun interface bridge => ?_⟩
    · rw [method?_result, method?, found']
      exact has'
    · exact isReached_result.2
        (order.reached_of_bridge settled fair found' has' reached' bridge)
  | default _ _ bare =>
    have bare := bare_of_ordinary found (fun _ => kind) bare
    rw [valid.allow, allowed] at bare
    cases bare
  | missing lacks_code no_owners => exact absurd ⟨lacks_code, no_owners⟩ lacks

end

end State

/-! ### Runs -/

/-- Whenever a run chooses a target for a reflective proxy of an ordinary class, that is no proxy,
and calling it finds code then and later, so that nothing is reported as missing. In the end, every
target of a reachable proxy has its code reachable and has not been reported as missing. -/
theorem proxies_have_code :
    (loader.knows.IsRooted → ∀ {state name cls proxy target},
      Moves (loader.runs true requirement) { allowForwarders := true } state →
        state.class? name = some cls → cls.kind.isOrdinary = true →
          state.proxyTarget? name proxy = some target →
            target.isProxy = false ∧
              ∀ later, Moves (loader.runs true requirement) state later → ∀ cause,
                later.FindsCode name target cause ∧
                  ∀ id other,
                    .missingMethod id other ∈ (later.resolve name target cause).2.errors →
                      .missingMethod id other ∈ later.errors) ∧
    ∀ {analysis after id entry target},
      analyze true requirement loader = (.ok analysis, after) →
        analysis.method? id = some entry → entry.isReached = true →
          entry.forwarder = some (.proxy target) → analysis.HasCode id.owner target ∧
            ∀ cause,
              .missingMethod ⟨id.owner, .publicInstance, target⟩ cause ∉ analysis.errors := by
  constructor
  · intro rooted state name cls proxy target reached found kind chosen
    have fair : (loader.runs true requirement).IsFair := Loader.isFair_settingFor rooted
    have valid := Moves.valid fair reached (State.valid_empty _)
    obtain ⟨continues, offers⟩ := valid.offers_of_proxyTarget fair found chosen
    refine ⟨MethodName.isProxy_of_matchesProxy continues, fun later moves cause => ?_⟩
    obtain ⟨record, found', growth⟩ := (Moves.grows moves).classes found
    have valid' := Moves.valid fair moves valid
    obtain ⟨family, not_interface⟩ := ClassKind.isOrdinary_cases kind
    have finds : later.FindsCode name target cause :=
      valid'.findsCode fair found' (growth.kind_eq ▸ family) offers rfl
        (growth.kind_eq ▸ not_interface) cause
    exact ⟨finds, fun id other => finds.silent⟩
  · rintro analysis after ⟨name, space, proxy⟩ entry target ends at_ reached proxied
    rcases analyze_course ends with ⟨empty, _⟩ | ⟨_, state, course, settled, rfl⟩
    · simp [Analysis.method?, Analysis.class?, empty] at at_
    · have fair := course.reaches.isFair
      have order := course.inOrder
      rw [State.method?_result] at at_
      obtain ⟨cls, found, has⟩ := Option.bind_eq_some_iff.1 at_
      obtain rfl : space = .publicInstance := by
        cases (order.valid.classes found).entries has with
        | declared _ _ _ _ own | missing _ _ _ own => cases own.symm.trans proxied
        | added _ space => exact space
      obtain ⟨direct, lacks, code⟩ := order.hasCode settled fair found has reached proxied
      have explains : state.Explains target :=
        Turns.explains fair (fun _ => trivial) (State.valid_empty _) (by simp [direct])
          course.reaches.turns (State.explains_empty _ target)
      exact ⟨code, fun cause mem =>
        lacks (explains.missing (State.mem_errors_of_result mem)).2⟩

/-- The target is a default method at first, which nothing in the super classes implements, and in
the end a bridge calls it. -/
theorem proxies_have_code_forwarding :
    let loader := Loader.ofDecls forwarding
    let requirement : Requirement := .instances "test" ⟨"A"⟩ .defaultConstructor
    (∃ state, Moves (loader.runs true requirement) { allowForwarders := true } state ∧
      state.proxyTarget? ⟨"A"⟩ ⟨"m__"⟩ = some ⟨"m__V"⟩ ∧
      state.superImplementor? ⟨"A"⟩ ⟨"m__V"⟩ = none ∧
      state.FindsCode ⟨"A"⟩ ⟨"m__V"⟩ .exports) ∧
    ∃ analysis after, analyze true (.callStatic "test" ⟨"A"⟩ ⟨"main__V"⟩) loader =
        (.ok analysis, after) ∧
      analysis.HasCode ⟨"A"⟩ ⟨"m__V"⟩ ∧
      (analysis.method? ⟨⟨"A"⟩, .publicInstance, ⟨"m__V"⟩⟩).bind MethodRecord.forwarder =
        some (.bridge ⟨"I"⟩) := by
  intro loader requirement
  have known : loader.knows .object = some plainRoot := by decide +kernel
  constructor
  · have told : ((State.start true plainRoot requirement loader.entryPoints).settle 40
        loader).1.toOption.map (fun state =>
          ((state.class? ⟨"A"⟩).map fun cls => cls.kind.isOrdinary,
            state.proxyTarget? ⟨"A"⟩ ⟨"m__"⟩, state.superImplementor? ⟨"A"⟩ ⟨"m__V"⟩)) =
        some (some true, some ⟨"m__V"⟩, none) := by decide +kernel
    obtain ⟨state, after, ends, told⟩ := exists_of_toOption_map told
    simp only [Prod.mk.injEq] at told
    obtain ⟨ordinary, chosen, uninherited⟩ := told
    obtain ⟨cls, found, kind⟩ := Option.map_eq_some_iff.1 ordinary
    have reached := State.reached_of_settle known rfl ends
    exact ⟨state, reached, chosen, uninherited, ((proxies_have_code.1 ⟨_, known, rfl⟩ reached found
      kind chosen).2 state .refl .exports).1⟩
  · have told : (analyze true (.callStatic "test" ⟨"A"⟩ ⟨"main__V"⟩) loader).1.toOption.map
        (fun analysis => ((analysis.method? ⟨⟨"A"⟩, .publicInstance, ⟨"m__"⟩⟩).map fun entry =>
            (entry.isReached, entry.forwarder),
          (analysis.method? ⟨⟨"A"⟩, .publicInstance, ⟨"m__V"⟩⟩).bind MethodRecord.forwarder)) =
        some (some (true, some (.proxy ⟨"m__V"⟩)), some (.bridge ⟨"I"⟩)) := by decide +kernel
    obtain ⟨analysis, after, ends, told⟩ := exists_of_toOption_map told
    obtain ⟨proxy, bridge⟩ := Prod.mk.inj told
    obtain ⟨entry, at_, proxy⟩ := Option.map_eq_some_iff.1 proxy
    obtain ⟨reached, proxied⟩ := Prod.mk.inj proxy
    exact ⟨analysis, after, ends, (proxies_have_code.2 ends at_ reached proxied).1, bridge⟩

end ClassLinker
