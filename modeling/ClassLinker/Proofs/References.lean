import ClassLinker.Proofs.Linked

/-!
# Linked programs are closed

Whatever the code of a linked program refers to is in the program (`link_closed`): an analysis
without errors has met every demand of the code that is kept, and what meets a demand is kept.

* `LinkedProgram.Resolves` says what it takes for a node of the code to refer to nothing that is
  missing;
* `Linked.resolves_of_provides` finds it in the program if the demands of the node are met.
-/

namespace ClassLinker

variable {setting : Setting} {state : State} {loader : Loader} {program : LinkedProgram}
variable {name other owner : ClassName} {cls record : ClassRecord} {kept : KeptClass}
variable {method : MethodName} {key : MethodKey} {analysis : Analysis}

/-! ### What is to be shown -/

namespace LinkedProgram

/-- The program has code for what a call of a public method reaches that begins at a class. -/
def Reaches (program : LinkedProgram) (analysis : Analysis) (name : ClassName)
    (method : MethodName) : Prop :=
  ∃ owner, Implements analysis.class? name method owner ∧
    program.Has owner fun kept => kept.Holds ⟨.publicInstance, method⟩

/-- The same of a call with dynamic dispatch on instances of exactly a class. Where proxies can be
added, a reflective call reaches a method of the class itself. -/
def Dispatches (program : LinkedProgram) (analysis : Analysis) (allow : Bool) (name : ClassName)
    (method : MethodName) : Prop :=
  if method.isProxy && allow then
    program.Has name fun kept => kept.Holds ⟨.publicInstance, method⟩
  else program.Reaches analysis name method

/-- The program has the class that a type is made of, if there is one, as the type of an instance
test or in some other way. -/
def HasType (program : LinkedProgram) (type : Ty) (isTest : Bool) : Prop :=
  ∀ cls, type.baseName? = some cls → program.Has cls fun kept =>
    if isTest && type.depth = 0 then kept.isTested = true else kept.hasTypeData = true

/-- The program has the fields of a class that a condition picks. -/
def HasFields (program : LinkedProgram) (analysis : Analysis) (name : ClassName)
    (picks : ClassRecord → NamedField → Bool) : Prop :=
  program.Has name fun kept => ∀ cls summary, analysis.class? name = some cls →
    cls.summary = some summary → ∀ field ∈ summary.fields, picks cls field = true →
      .named field ∈ kept.fields

/-- The program has whatever a node of its code refers to. A call with dynamic dispatch refers to
what it reaches in each class that instances are created of, and one made by a proxy only to what it
reaches in the class itself, as those below have proxies of their own. -/
def Resolves (program : LinkedProgram) (analysis : Analysis) (allow inProxy : Bool) : Expr → Prop
  | .new cls ctor _ => program.Has cls fun kept => kept.Holds ⟨.constructor, ctor⟩ ∧
      (kept.kind.isInstantiable = true → kept.hasInstances = true)
  | .module cls | .jsModule cls => program.Has cls fun kept =>
      kept.kind.isModule = true ∧ kept.hasInstances = true ∧
        (kept.kind.isOrdinary = true → kept.Holds ⟨.constructor, .defaultConstructor⟩)
  | .staticField cls _ => program.HasFields analysis cls fun _ field => field.isStatic
  | .privateJSField cls _ _ =>
    program.HasFields analysis cls fun cls field => !field.isStatic && cls.kind.isJS
  | .call cls _ method _ => ∀ upper below record, analysis.class? cls = some upper →
      upper.kind.isJS = false → analysis.class? below = some record →
      record.kind.isOrdinary = true → record.uses.instances = true → cls ∈ record.ancestors →
      (inProxy = true → below = cls) → program.Dispatches analysis allow below method
  | .callDirect cls space _ method _ | .callStatic cls space method _ =>
    if space = .publicInstance then program.Reaches analysis cls method
    else program.Has cls fun kept => kept.Holds ⟨space, method⟩
  | .isInstance _ type | .cast _ type => program.HasType type true
  | .classOf type | .newArray type _ => program.HasType type false
  | .jsConstructor cls => ∀ known, analysis.class? cls = some known →
      known.kind.isInstantiable = true → program.Has cls fun kept => kept.hasInstances = true
  | _ => True

end LinkedProgram

/-- A proxy demands nothing but the call of its target. -/
theorem eq_call_of_mem_proxy {proxy : MethodName} {target : MethodDecl} {expr node : Expr}
    (same : (MethodDecl.proxy proxy owner target).body = some expr) (inside : node ∈ expr.nodes) :
    node = .call owner .self target.name (forwarded target.params) ∨ node.ownDemands = [] := by
  have of_call : node ∈ (Expr.call owner .self target.name (forwarded target.params)).nodes →
      node = .call owner .self target.name (forwarded target.params) ∨ node.ownDemands = [] :=
    eq_of_mem_forwarding rfl
  simp only [MethodDecl.proxy, Option.some.injEq] at same
  split at same
  · subst same
    rw [Expr.nodes_eq] at inside
    rcases List.mem_cons.1 inside with rfl | inside
    · exact .inr rfl
    · simp only [Expr.operands, List.flatMap_cons, List.flatMap_nil, List.append_nil] at inside
      rcases List.mem_append.1 inside with inside | inside
      · exact of_call inside
      · obtain rfl := List.mem_singleton.1 inside
        exact .inr rfl
  · subst same
    exact of_call inside

namespace ClassRecord

theorem linkedKind_of_read (read : cls.uses.module = true) : cls.linkedKind = cls.kind := by
  unfold linkedKind
  rw [read, Bool.not_true, Bool.and_false, if_neg Bool.false_ne_true]

/-- Whether or not a module is read, it can have instances. -/
theorem isInstantiable_linkedKind (cls : ClassRecord) :
    cls.linkedKind.isInstantiable = cls.kind.isInstantiable := by
  unfold linkedKind
  split
  · cases cls.kind <;> rfl
  · rfl

end ClassRecord

namespace Linked

variable (linked : Linked setting loader state program)

include linked

/-! ### What meets a demand -/

/-- A class with instances of its own says so. -/
theorem hasInstances (found : state.class? name = some cls) (created : cls.uses.instances = true) :
    cls.hasInstances = true := by
  have knows := linked.order.consistent.created found created
  by_cases kind : cls.kind.isOrdinary = true
  · have mem := linked.order.valid.follows.self_mem linked.fair.rooted found
    obtain ⟨record, found', has, _⟩ := knows.above kind mem
    obtain rfl := Option.some.inj (found.symm.trans found')
    exact has
  · exact knows.hasInstances (Bool.eq_false_iff.2 kind)

/-- Code of a class is in the program if it is reachable. -/
theorem has_of_concrete (found : state.class? owner = some cls)
    (has : cls.hasConcrete method = true)
    (reached : state.IsReached ⟨owner, .publicInstance, method⟩) :
    program.Has owner fun kept => kept.Holds ⟨.publicInstance, method⟩ := by
  have present := (linked.order.valid.classes found).isPresent_of_hasConcrete has
  obtain ⟨record, found', entry, hasEntry, reached⟩ := State.isReached_iff.1 reached
  obtain rfl := Option.some.inj (found.symm.trans found')
  exact (linked.has_of_reached found present hasEntry reached).imp fun _ h => h.2

theorem reaches_of_answered (answered : state.Answered name method) :
    program.Reaches state.result name method := by
  have same : state.result.class? = state.class? := funext state.class?_result
  unfold LinkedProgram.Reaches
  rw [same]
  cases answered with
  | @implemented owner implementor reached =>
    obtain ⟨record, found, has⟩ := implementor.has_code
    exact ⟨owner, .inl implementor, linked.has_of_concrete found has reached⟩
  | @default first others lacks owners _ reached =>
    obtain ⟨cls, found⟩ : ∃ cls, state.class? name = some cls := by
      cases found : state.class? name with
      | some cls => exact ⟨cls, rfl⟩
      | none => simp [State.defaultOwners, State.defaultCandidates, State.ancestorRecords, found,
          State.notOverridden] at owners
    rw [state.defaultOwners_eq] at owners
    obtain ⟨_, record, found', _, has⟩ := exists_of_mem_defaultOwnersIn linked.order.valid.follows
      found (owners ▸ List.mem_cons_self)
    exact ⟨first, .inr ⟨lacks, by rw [owners]; rfl⟩, linked.has_of_concrete found' has reached⟩
  | missing _ _ _ error =>
    obtain ⟨cause, mem⟩ := error
    rw [linked.clean] at mem
    cases mem

theorem dispatches (found : state.class? name = some cls) (present : cls.isPresent = true)
    (dispatched : state.Dispatched name method) :
    program.Dispatches state.result setting.allow name method := by
  unfold LinkedProgram.Dispatches
  unfold State.Dispatched at dispatched
  rw [linked.order.valid.allow] at dispatched
  split at dispatched
  · rename_i reflective
    obtain ⟨record, found', entry, hasEntry, reached⟩ := State.isReached_iff.1 dispatched
    obtain rfl := Option.some.inj (found.symm.trans found')
    rw [if_pos reflective]
    exact (linked.has_of_reached found present hasEntry reached).imp fun _ h => h.2
  · rename_i direct
    rw [if_neg direct]
    exact linked.reaches_of_answered dispatched

/-- A class that is used other than by creating instances is in the program. -/
theorem has_of_use (found : state.class? name = some cls) (present : cls.isPresent = true)
    {use : Use} (uses : cls.uses.contains use = true) (ne : use ≠ .instances) :
    program.Has name (Keeps loader cls) := by
  refine linked.has_of_needed found present ?_
  cases use with
  | instances => exact absurd rfl ne
  | module | tests | typeData | staticFields | privateFields =>
    simp only [Uses.contains] at uses
    simp [ClassRecord.isNeeded, uses]

/-- A method that is not public and called directly is in the program. -/
theorem has_of_called (space : key.space ≠ .publicInstance)
    (provides : state.Provides name (.callDirect key)) :
    ∃ cls, state.class? name = some cls ∧
      program.Has name fun kept => Keeps loader cls kept ∧ kept.Holds key := by
  obtain ⟨cls, found, present, fulfils⟩ := provides
  simp only [State.Fulfils, if_neg space] at fulfils
  obtain ⟨record, found', entry, hasEntry, reached⟩ := State.isReached_iff.1 fulfils
  rw [show (cls.idOf key).owner = name from linked.order.valid.follows.name_eq found] at found'
  obtain rfl := Option.some.inj (found.symm.trans found')
  exact ⟨cls, found, linked.has_of_reached found present hasEntry reached⟩

/-- A module that is read is in the program, with its constructor. -/
theorem has_module (provides : state.Provides name (.use .module)) :
    program.Has name fun kept => kept.kind.isModule = true ∧ kept.hasInstances = true ∧
      (kept.kind.isOrdinary = true → kept.Holds ⟨.constructor, .defaultConstructor⟩) := by
  obtain ⟨cls, found, present, fulfils⟩ := provides
  have read : cls.uses.module = true := fulfils.resolve_right fun h => h.2 linked.clean
  obtain ⟨isModule, created⟩ := linked.order.consistent.read found read
  have instances := linked.hasInstances found created
  have flags : ∀ kept, Keeps loader cls kept →
      kept.kind = cls.kind ∧ kept.hasInstances = true := by
    intro kept keeps
    obtain ⟨_, kind_eq, instances_eq, _⟩ := keeps.flags
    rw [kind_eq, instances_eq]
    exact ⟨ClassRecord.linkedKind_of_read read, instances⟩
  by_cases kind : cls.kind.isOrdinary = true
  · obtain ⟨cause, covers⟩ := linked.order.modules found read kind
    have called : state.Provides name (.callDirect ⟨.constructor, .defaultConstructor⟩) :=
      linked.order.provides linked.settled linked.clean covers rfl rfl
    obtain ⟨_, found', has⟩ :=
      linked.has_of_called (fun h : Namespace.constructor = .publicInstance => by cases h) called
    obtain rfl := Option.some.inj (found.symm.trans found')
    refine has.imp ?_
    rintro kept ⟨keeps, holds⟩
    obtain ⟨kind_eq, instances⟩ := flags kept keeps
    exact ⟨kind_eq ▸ isModule, instances, fun _ => holds⟩
  · have uses : cls.uses.contains .module = true := read
    refine (linked.has_of_use found present uses (by decide)).imp fun kept keeps => ?_
    obtain ⟨kind_eq, instances⟩ := flags kept keeps
    exact ⟨kind_eq ▸ isModule, instances, fun h => absurd (kind_eq ▸ h) kind⟩

/-- A class that instances are created of is in the program, with the constructor called. -/
theorem has_instance {ctor : MethodName} (provides : state.Provides name (.use .instances))
    (called : state.Provides name (.callDirect ⟨.constructor, ctor⟩)) :
    program.Has name fun kept => kept.Holds ⟨.constructor, ctor⟩ ∧
      (kept.kind.isInstantiable = true → kept.hasInstances = true) := by
  obtain ⟨cls, found, has⟩ :=
    linked.has_of_called (fun h : Namespace.constructor = .publicInstance => by cases h) called
  obtain ⟨_, found', _, fulfils⟩ := provides
  obtain rfl := Option.some.inj (found.symm.trans found')
  refine has.imp ?_
  rintro kept ⟨keeps, holds⟩
  refine ⟨holds, fun kind => ?_⟩
  obtain ⟨_, kind_eq, instances_eq, _⟩ := keeps.flags
  rw [kind_eq, ClassRecord.isInstantiable_linkedKind] at kind
  rw [instances_eq]
  exact linked.hasInstances found (fulfils kind)

/-- A class that values are tested against, or whose type data is needed, is in the program. -/
theorem hasType {type : Ty} {isTest : Bool}
    (provides : ∀ cls, type.baseName? = some cls →
      state.Provides cls (.use (if isTest && type.depth = 0 then .tests else .typeData))) :
    program.HasType type isTest := by
  intro name base
  obtain ⟨cls, found, present, fulfils⟩ := provides name base
  split at fulfils
  · rename_i test
    have uses : cls.uses.contains .tests = true := fulfils
    refine (linked.has_of_use found present uses (by decide)).imp fun kept keeps => ?_
    rw [if_pos test, keeps.flags.2.2.2.1]
    exact fulfils
  · rename_i data
    have uses : cls.uses.contains .typeData = true := fulfils
    refine (linked.has_of_use found present uses (by decide)).imp fun kept keeps => ?_
    rw [if_neg data, keeps.flags.2.2.2.2]
    exact fulfils

/-- The fields of a class that are used are in the program. -/
theorem hasFields {use : Use} {picks : ClassRecord → NamedField → Bool}
    (provides : state.Provides name (.use use)) (ne : use ≠ .instances)
    (uses : ∀ cls, state.Fulfils cls (.use use) → cls.uses.contains use = true)
    (keeps : ∀ cls field, cls.uses.contains use = true → picks cls field = true →
      cls.keepsField (.named field) = true) :
    program.HasFields state.result name picks := by
  obtain ⟨cls, found, present, fulfils⟩ := provides
  refine (linked.has_of_use found present (uses cls fulfils) ne).imp ?_
  rintro kept ⟨entry, made, declares, _, same⟩ record summary found' known field mem picked
  rw [State.class?_result, found] at found'
  obtain rfl := Option.some.inj found'
  rw [linked.order.valid.follows.name_eq found] at declares
  rw [linked.summary_eq found declares] at known
  obtain rfl := Option.some.inj known
  rw [(KeptClass.ofRecord_eq_ok.1 same).2]
  refine List.mem_filter.2 ⟨?_, keeps cls field (uses cls fulfils) picked⟩
  obtain ⟨decl, listed, named⟩ := List.mem_filterMap.1 mem
  cases decl with
  | named field' => cases named; exact listed
  | computed => cases named

/-- A call with a fixed target reaches code. -/
theorem calls_of_provides {space : Namespace}
    (called : state.Provides name (.callDirect ⟨space, method⟩)) :
    if space = .publicInstance then program.Reaches state.result name method
    else program.Has name fun kept => kept.Holds ⟨space, method⟩ := by
  split
  · rename_i isPublic
    subst isPublic
    obtain ⟨record, found, _, fulfils⟩ := called
    simp only [State.Fulfils, if_true, linked.order.valid.follows.name_eq found] at fulfils
    exact linked.reaches_of_answered fulfils
  · rename_i own
    obtain ⟨_, _, has⟩ := linked.has_of_called own called
    exact has.imp fun _ h => h.2

/-- A call with dynamic dispatch reaches code in every class that has instances. -/
theorem dispatches_of_provides (provided : state.Provides name (.call method))
    (found : state.class? name = some cls) (notJS : cls.kind.isJS = false)
    (receiver : state.class? other = some record) (kind : record.kind.isOrdinary = true)
    (created : record.uses.instances = true) (mem : name ∈ record.ancestors) :
    program.Dispatches state.result setting.allow other method := by
  obtain ⟨_, found', _, fulfils⟩ := provided
  obtain rfl := Option.some.inj (found.symm.trans found')
  obtain ⟨cause, noted⟩ := fulfils notJS
  obtain ⟨_, found', _, resident⟩ :=
    (linked.order.consistent.created receiver created).above kind mem
  obtain rfl := Option.some.inj (found.symm.trans found')
  have dispatched := linked.order.consistent.dispatched found resident noted
  have created : record.uses.contains .instances = true := created
  have present := ((linked.order.valid.classes receiver).used created).1
  exact linked.dispatches receiver present dispatched

/-- A node that has all that it demands refers to nothing that is missing. -/
theorem resolves_of_provides {node : Expr} (inProxy : Bool)
    (provides : ∀ demand ∈ node.ownDemands, state.Provides demand.1 demand.2) :
    program.Resolves state.result setting.allow inProxy node := by
  cases node with
  | new cls ctor _ =>
    exact linked.has_instance (provides _ List.mem_cons_self)
      (provides _ (List.mem_cons_of_mem _ List.mem_cons_self))
  | module | jsModule => exact linked.has_module (provides _ List.mem_cons_self)
  | staticField =>
    refine linked.hasFields (provides _ List.mem_cons_self) (by decide) (fun _ h => h) ?_
    intro cls field uses picked
    rw [ClassRecord.keepsField, if_pos picked]
    exact uses
  | privateJSField =>
    refine linked.hasFields (provides _ List.mem_cons_self) (by decide) (fun _ h => h) ?_
    intro cls field uses picked
    obtain ⟨own, isJS⟩ := Bool.and_eq_true_iff.1 picked
    rw [ClassRecord.keepsField, if_neg (by simpa using own), if_pos isJS]
    exact uses
  | call name _ method _ =>
    intro upper below record found notJS receiver kind created mem _
    rw [State.class?_result] at found receiver
    exact linked.dispatches_of_provides (provides _ List.mem_cons_self) found notJS receiver kind
      created mem
  | callDirect | callStatic => exact linked.calls_of_provides (provides _ List.mem_cons_self)
  | isInstance _ type | cast _ type =>
    refine linked.hasType fun cls base => ?_
    have provided := provides (cls, .use (if type.depth = 0 then .tests else .typeData))
      (by simp [Expr.ownDemands, Ty.testDemands, base])
    simpa using provided
  | classOf type | newArray type _ =>
    refine linked.hasType fun cls base => ?_
    exact provides (cls, .use .typeData) (by simp [Expr.ownDemands, Ty.dataDemands, base])
  | jsConstructor name =>
    intro known found kind
    rw [State.class?_result] at found
    obtain ⟨cls, found', present, fulfils⟩ := provides _ List.mem_cons_self
    obtain rfl := Option.some.inj (found.symm.trans found')
    have instances := linked.hasInstances found (fulfils kind)
    refine (linked.has_of_needed found present (by simp [ClassRecord.isNeeded, instances])).imp
      fun kept keeps => ?_
    rw [keeps.flags.2.2.1]
    exact instances
  | skip | block | letVar | var | self | literal | undefined | ifElse | ret | assign | field =>
    trivial

/-- Every node of the code of the program refers to nothing that is missing. -/
theorem resolves (coherent : loader.IsCoherent) (mem : kept ∈ program.classes)
    {isProxy : Bool} {expr node : Expr}
    (code : kept.Code state.result isProxy expr) (inside : node ∈ expr.nodes) :
    program.Resolves state.result setting.allow isProxy node := by
  rcases linked.provides_code coherent mem code with
    provides | ⟨rfl, proxy, target, dispatched, same⟩
  · exact linked.resolves_of_provides isProxy (provides node inside)
  · rcases eq_call_of_mem_proxy same inside with rfl | demandless
    · intro upper below record _ _ receiver _ created _ exact_
      obtain rfl := exact_ rfl
      rw [State.class?_result] at receiver
      have created : record.uses.contains .instances = true := created
      have present := ((linked.order.valid.classes receiver).used created).1
      exact linked.dispatches receiver present dispatched
    · refine linked.resolves_of_provides true fun demand demands => ?_
      rw [demandless] at demands
      cases demands

end Linked

/-- Whatever the code of a linked program refers to is in the program. -/
theorem link_closed {options : LinkOptions} {requirement : Requirement}
    {startup : List StartupCall} (coherent : loader.IsCoherent)
    (links : (link options requirement startup loader).result = .ok program) :
    ∃ analysis after,
      analyze options.allowForwarders (requirement + startupRequirement startup) loader =
        (.ok analysis, after) ∧
      ∀ kept ∈ program.classes, ∀ isProxy expr, kept.Code analysis isProxy expr →
        ∀ node ∈ expr.nodes,
          program.Resolves analysis options.allowForwarders isProxy node := by
  obtain ⟨analysis, after, ends, ⟨_, empty⟩ | ⟨state, rfl, linked⟩⟩ :=
    exists_linked_of_link coherent.isFaithful links
  · refine ⟨analysis, after, ends, fun kept mem => ?_⟩
    rw [empty] at mem
    cases mem
  · refine ⟨state.result, after, ends, ?_⟩
    intro kept mem isProxy expr code node inside
    exact linked.resolves coherent mem code inside

/-! ### An example -/

/-- A declaration that is an entry point is one of the loader. -/
theorem Loader.mem_entryPoints_ofDecls {decls : List ClassDecl} {entry : VersionedDecl}
    (holds : (Loader.ofDecls decls).Holds name entry)
    (isEntryPoint : entry.decl.isEntryPoint = true) :
    name ∈ (Loader.ofDecls decls).entryPoints := by
  have given : (decls.foldl (fun source decl => source.insert decl none) {} :
      Source).givenEntryPoints = none := Loader.tell_foldl_insert (fun _ _ => rfl) decls {}
  obtain ⟨source, mem, known⟩ := holds
  obtain rfl := List.mem_singleton.1 mem
  refine List.mem_eraseDups.2 (List.mem_flatMap.2 ⟨_, mem, ?_⟩)
  simp only [Source.entryPoints, given]
  exact List.mem_map.2 ⟨(name, entry), List.mem_filter.2
    ⟨Std.ExtTreeMap.mem_toList_iff_getElem?_eq_some.2 known, isEntryPoint⟩, rfl⟩

/-- A loader that never fails is faithful. -/
theorem Loader.isFaithful_ofDecls (decls : List ClassDecl) : (Loader.ofDecls decls).IsFaithful := by
  refine ⟨fun {name entry} declares => ?_, fun {name entry} declares isEntryPoint =>
    Loader.mem_entryPoints_ofDecls declares.holds isEntryPoint⟩
  obtain ⟨source, mem, known⟩ := declares.holds
  obtain rfl := List.mem_singleton.1 mem
  rw [Loader.knows_ofDecls, known]
  rfl

/-- It is coherent if no class lists a method twice. -/
theorem Loader.isCoherent_ofDecls {decls : List ClassDecl}
    (nodup : ∀ decl ∈ decls, decl.methodKeys.Nodup) : (Loader.ofDecls decls).IsCoherent where
  summary := (Loader.isFaithful_ofDecls decls).summary
  nodup declares := nodup _ (Loader.mem_of_holds_ofDecls declares.holds).1
  entryPoint := (Loader.isFaithful_ofDecls decls).entryPoint

/-- A method of an interface that creates an instance, and a class that inherits it. -/
def creating : List ClassDecl :=
  [.ofMethods .object .plain [] [],
    .ofMethods ⟨"I"⟩ .interface []
      [.plain .publicInstance ⟨"m__V"⟩ (some (.new ⟨"B"⟩ .defaultConstructor []))],
    .ofMethods ⟨"A"⟩ .plain [.object, ⟨"I"⟩]
      [.plain .constructor .defaultConstructor (some .skip),
        .plain .publicStatic ⟨"main__V"⟩
          (some (.call ⟨"I"⟩ (.new ⟨"A"⟩ .defaultConstructor []) ⟨"m__V"⟩ []))],
    .ofMethods ⟨"B"⟩ .plain [.object] [.plain .constructor .defaultConstructor (some .skip)]]

/-- The instance is created in a method that only a bridge calls. -/
theorem link_closed_creating :
    ∃ program, (link {} (.callStatic "test" ⟨"A"⟩ ⟨"main__V"⟩) []
        (Loader.ofDecls creating)).result = .ok program ∧
      program.Has ⟨"B"⟩ fun kept => kept.Holds ⟨.constructor, .defaultConstructor⟩ ∧
        (kept.kind.isInstantiable = true → kept.hasInstances = true) := by
  let creates : Expr → Bool := fun body =>
    match body with
    | .new cls ctor _ => cls = ⟨"B"⟩ && ctor = .defaultConstructor
    | _ => false
  have told : (link {} (.callStatic "test" ⟨"A"⟩ ⟨"main__V"⟩) []
      (Loader.ofDecls creating)).result.toOption.map (fun program =>
        program.classes.any fun kept => kept.methods.any fun method => method.body.any creates) =
      some true := by
    decide +kernel
  have coherent : (Loader.ofDecls creating).IsCoherent :=
    Loader.isCoherent_ofDecls (by decide +kernel)
  generalize links : (link {} (.callStatic "test" ⟨"A"⟩ ⟨"main__V"⟩) []
    (Loader.ofDecls creating)).result = result at told
  cases result with
  | error => cases told
  | ok program =>
    obtain ⟨analysis, after, _, closed⟩ := link_closed coherent links
    obtain ⟨kept, mem, holds⟩ := List.any_eq_true.1 (Option.some.inj told)
    obtain ⟨method, listed, some_body⟩ := List.any_eq_true.1 holds
    obtain ⟨node, body, shape⟩ := (Option.any_eq_true ..).1 some_body
    simp only [creates] at shape
    split at shape
    · rename_i cls ctor args
      obtain ⟨rfl, rfl⟩ : cls = ⟨"B"⟩ ∧ ctor = .defaultConstructor := by simpa using shape
      have code := @KeptClass.Code.method kept analysis method _ listed body
      have root : Expr.new ⟨"B"⟩ .defaultConstructor args ∈
          (Expr.new ⟨"B"⟩ .defaultConstructor args).nodes := by
        rw [Expr.nodes_eq]
        exact List.mem_cons_self
      have resolved := closed kept mem _ _ code _ root
      exact ⟨program, rfl, resolved⟩
    · cases shape

end ClassLinker
