import ClassLinker.Proofs.References

/-!
# What is kept of entry points

A class with a static initializer or an export is analyzed even if nothing refers to it. Once
linked, it is kept with all of these as soon as anything is needed of it:

* entering a class asks for its static initializer, the instance of a module, instances of a
  JavaScript class and static fields, so a class that exports one of these is needed by itself
  (`ClassDecl.AsksForItself`);
* entering it asks only for what the code of an exported function demands, so a class that exports
  nothing but functions is kept if something else needs it.

`link_keepsEntries_iff` says that these are the two cases, and no other. In particular every static
initializer is kept; `not_keepsEntries_function` is a function whose export gets lost.
-/

namespace ClassLinker

variable {setting : Setting} {state : State} {loader : Loader} {program : LinkedProgram}
variable {name : ClassName} {cls : ClassRecord} {kept : KeptClass} {entry : VersionedDecl}

/-! ### Entry points of a class -/

/-- Every class has one declaration, which bears its name. -/
structure Loader.IsStable (loader : Loader) : Prop where
  named : ∀ {name entry}, loader.Declares name entry → entry.decl.name = name
  unique : ∀ {name first second}, loader.Declares name first → loader.Declares name second →
    first.decl = second.decl

/-- Entering the class asks for something of the class itself. A class of a kind that has no
instances does not get any by exporting its constructor. -/
inductive ClassDecl.AsksForItself (decl : ClassDecl) : Prop
  | initializer (initializes : decl.initializesStatics = true)
  | module {item : Export} (mem : item ∈ decl.exports) (target : item.target = .module)
  | jsClass {item : Export} (mem : item ∈ decl.exports) (target : item.target = .jsClass)
      (kind : decl.kind.isInstantiable = true)
  | field {item : Export} {field : FieldName} (mem : item ∈ decl.exports)
      (target : item.target = .field field)

/-- The class holds the static initializer of a declaration and everything that it exports. -/
structure KeptClass.KeepsEntries (kept : KeptClass) (decl : ClassDecl) : Prop where
  initializers : ∀ method ∈ decl.methods, method.space = .staticConstructor →
    method.name.isClassInit = true → method ∈ kept.methods
  exports : ∀ item ∈ decl.exports, item ∈ kept.exports

namespace ClassDecl

/-- A static initializer that is declared is told by the summary. -/
theorem initializesStatics_summary {decl : ClassDecl}
    (initializes : decl.initializesStatics = true) :
    decl.summary.initializesStatics = true := by
  obtain ⟨method, mem, named⟩ := List.any_eq_true.1 initializes
  have listed : method.summary ∈ decl.summary.methods := List.mem_map_of_mem mem
  have same : method.space = .staticConstructor ∧ method.name = .classInit := by
    simpa [MethodName.isClassInit] using named
  exact List.find?_isSome.2 ⟨method.summary, listed, decide_eq_true same⟩

/-- Whatever asks for something of its own class is an entry point. -/
theorem AsksForItself.isEntryPoint {decl : ClassDecl} (asks : decl.AsksForItself) :
    decl.isEntryPoint = true := by
  have exporting : ∀ {item}, item ∈ decl.exports → decl.isEntryPoint = true := by
    intro item mem
    have nonempty : decl.exports.isEmpty = false := by simpa using List.ne_nil_of_mem mem
    simp [ClassDecl.isEntryPoint, nonempty]
  cases asks with
  | initializer initializes => simp [ClassDecl.isEntryPoint, initializes]
  | module mem | jsClass mem | field mem => exact exporting mem

end ClassDecl

/-! ### What is needed of them -/

namespace Linked

variable (linked : Linked setting loader state program)

include linked

/-- A class that the program has is needed. -/
theorem needed_of_has {property : KeptClass → Prop} (has : program.Has name property) :
    ∃ cls, state.class? name = some cls ∧ cls.isNeeded = true := by
  obtain ⟨kept, found, _⟩ := has
  have named : kept.name = name := by simpa using List.find?_some found
  obtain ⟨cls, listed, keeps⟩ :=
    exists_of_forall₂_left linked.keeps.flip (List.mem_of_find?_eq_some found)
  have name_eq : kept.name = cls.name := (show Keeps loader cls kept from keeps).flags.1
  obtain ⟨found, _, needed⟩ := linked.mem_neededClasses.1 listed
  exact ⟨cls, by rw [← named, name_eq]; exact found, needed⟩

/-- What entering a declared class asks for is provided. -/
theorem provides_entered (declares : loader.Declares name entry)
    (isEntryPoint : entry.decl.isEntryPoint = true) :
    ∃ cls, state.class? name = some cls ∧ ∀ other demand cause,
      { cls := other, action := .fulfil demand, cause } ∈ State.entryTasks cls →
        state.Provides other demand := by
  have isEntry : name ∈ setting.entryPoints :=
    linked.entryPoints ▸ linked.faithful.entryPoint declares isEntryPoint
  obtain ⟨cls, found, _, _⟩ := linked.order.exists_of_covers linked.settled linked.clean
    (linked.order.accounted (.inl (Setting.enter_mem_rootTasks isEntry))) rfl
  exact ⟨cls, found, fun other demand cause due =>
    linked.order.provides_entry linked.settled linked.clean isEntry found due rfl rfl⟩

/-- The static initializer of a declared class is called. -/
theorem calls_initializer (declares : loader.Declares name entry)
    (initializes : entry.decl.initializesStatics = true) :
    state.Provides name (.callDirect ⟨.staticConstructor, .classInit⟩) := by
  obtain ⟨cls, found, provides⟩ :=
    linked.provides_entered declares (ClassDecl.AsksForItself.initializer initializes).isEntryPoint
  have due := State.mem_entryTasks_of_initializer (linked.summary_eq found declares)
    (ClassDecl.initializesStatics_summary initializes)
  exact linked.order.valid.follows.name_eq found ▸ provides _ _ _ due

/-- What the target of an export demands of its own class is provided. -/
theorem provides_target (stable : loader.IsStable) (declares : loader.Declares name entry)
    (use : Use) {item : Export} (mem : item ∈ entry.decl.exports)
    (target : item.target.demands entry.decl.name =
      (∅ : Demands).record entry.decl.name (.use use)) :
    state.Provides name (.use use) := by
  have isEntryPoint : entry.decl.isEntryPoint = true := by
    have nonempty : entry.decl.exports.isEmpty = false := by simpa using List.ne_nil_of_mem mem
    simp [ClassDecl.isEntryPoint, nonempty]
  obtain ⟨cls, found, provides⟩ := linked.provides_entered declares isEntryPoint
  have demanded : (name, Demand.use use) ∈ (item.target.demands entry.decl.name).toList := by
    rw [target, stable.named declares]
    exact Demands.mem_record.2 (.inl rfl)
  exact provides _ _ _ (State.mem_entryTasks_of_export (linked.summary_eq found declares)
    (List.mem_map_of_mem mem) demanded)

/-- A declared class that asks for itself is needed. -/
theorem needed_of_asks (stable : loader.IsStable) (declares : loader.Declares name entry)
    (asks : entry.decl.AsksForItself) :
    ∃ cls, state.class? name = some cls ∧ cls.isNeeded = true := by
  cases asks with
  | initializer initializes =>
    obtain ⟨_, _, has⟩ := linked.has_of_called
      (fun h : Namespace.staticConstructor = .publicInstance => by cases h)
      (linked.calls_initializer declares initializes)
    exact linked.needed_of_has has
  | module mem target =>
    have read := linked.provides_target stable declares .module mem
      (by rw [target, ExportTarget.demands])
    exact linked.needed_of_has (linked.has_module read)
  | jsClass mem target kind =>
    obtain ⟨cls, found, _, fulfils⟩ := linked.provides_target stable declares
      .instances mem (by rw [target, ExportTarget.demands])
    have kind_eq : cls.fresh.kind = entry.decl.summary.kind :=
      (linked.order.valid.follows.links found).kind_eq
        (linked.world ▸ linked.faithful.summary declares)
    have kind_eq : cls.kind = entry.decl.kind := kind_eq
    have instances := linked.hasInstances found (fulfils (kind_eq ▸ kind))
    exact ⟨cls, found, by simp [ClassRecord.isNeeded, instances]⟩
  | field mem target =>
    obtain ⟨cls, found, present, fulfils⟩ := linked.provides_target stable declares
      .staticFields mem (by rw [target, ExportTarget.demands])
    have uses : cls.uses.contains .staticFields = true := fulfils
    exact linked.needed_of_has (linked.has_of_use found present uses (by decide))

/-- A static initializer of a declared class is kept if the class is. -/
theorem keeps_initializer (declares : loader.Declares name entry)
    (found : state.class? name = some cls) {method : MethodDecl} (mem : method ∈ entry.decl.methods)
    (space : method.space = .staticConstructor) (named : method.name.isClassInit = true) :
    cls.keepsMethod method = true := by
  have initializes : entry.decl.initializesStatics = true :=
    List.any_eq_true.2 ⟨method, mem, by simp [space, named]⟩
  obtain ⟨record, found', _, fulfils⟩ := linked.calls_initializer declares initializes
  obtain rfl := Option.some.inj (found.symm.trans found')
  have reached : state.IsReached (cls.idOf ⟨.staticConstructor, .classInit⟩) := fulfils
  obtain ⟨record, found', known, has, reached⟩ := State.isReached_iff.1 reached
  rw [show (cls.idOf ⟨.staticConstructor, .classInit⟩).owner = name from
    linked.order.valid.follows.name_eq found] at found'
  obtain rfl := Option.some.inj (found.symm.trans found')
  have has : cls.method? ⟨.staticConstructor, .classInit⟩ = some known := has
  have own : known.forwarder = none := by
    cases (linked.order.valid.classes found).entries has with
    | declared _ _ _ _ own | missing _ _ _ own => exact own
    | added _ space => cases space
  have key_eq : (⟨method.space, method.name⟩ : MethodKey) = ⟨.staticConstructor, .classInit⟩ := by
    rw [space, show method.name = .classInit by simpa [MethodName.isClassInit] using named]
  rw [ClassRecord.keepsMethod, key_eq, has, Option.any_some, reached, own]
  rfl

/-- A declared class that is needed is kept with its static initializer and its exports. -/
theorem keepsEntries_of_needed (stable : loader.IsStable) (declares : loader.Declares name entry)
    (found : state.class? name = some cls) (needed : cls.isNeeded = true) :
    program.Has name (·.KeepsEntries entry.decl) := by
  have present : cls.isPresent = true := by
    rw [ClassRecord.isPresent, linked.summary_eq found declares, Option.isSome_some]
  refine (linked.has_of_needed found present needed).imp ?_
  rintro kept ⟨other, made, declares', _, same⟩
  rw [linked.order.valid.follows.name_eq found] at declares'
  obtain ⟨_, rfl⟩ := KeptClass.ofRecord_eq_ok.1 same
  rw [stable.unique declares' declares]
  refine ⟨fun method mem space named => ?_, fun _ mem => mem⟩
  exact List.mem_append_left _ (List.mem_filter.2
    ⟨mem, linked.keeps_initializer declares found mem space named⟩)

end Linked

/-- An entry point is kept with its static initializer and its exports if it asks for something of
itself or is needed otherwise, and in no other case. -/
theorem link_keepsEntries_iff {options : LinkOptions} {requirement : Requirement}
    {startup : List StartupCall} (faithful : loader.IsFaithful) (stable : loader.IsStable)
    (links : (link options requirement startup loader).result = .ok program) :
    ∃ analysis after,
      analyze options.allowForwarders (requirement + startupRequirement startup) loader =
        (.ok analysis, after) ∧
      ∀ name entry, loader.Declares name entry → entry.decl.isEntryPoint = true →
        (program.Has name (·.KeepsEntries entry.decl) ↔
          entry.decl.AsksForItself ∨
            ∃ cls, analysis.class? name = some cls ∧ cls.isNeeded = true) := by
  obtain ⟨analysis, after, ends, ⟨idle, _⟩ | ⟨state, rfl, linked⟩⟩ :=
    exists_linked_of_link faithful links
  · refine ⟨analysis, after, ends, fun name entry declares isEntryPoint => ?_⟩
    have mem := faithful.entryPoint declares isEntryPoint
    rw [idle] at mem
    cases mem
  · refine ⟨state.result, after, ends, fun name entry declares _ => ?_⟩
    rw [State.class?_result]
    refine ⟨fun has => .inr (linked.needed_of_has has), ?_⟩
    rintro (asks | ⟨cls, found, needed⟩)
    · obtain ⟨cls, found, needed⟩ := linked.needed_of_asks stable declares asks
      exact linked.keepsEntries_of_needed stable declares found needed
    · exact linked.keepsEntries_of_needed stable declares found needed

/-! ### An example -/

/-- The declarations of a single source are the only ones, however often it fails. -/
theorem Loader.isStable_of_source {source : Source} (single : loader.sources = [source])
    (named : ∀ name entry, source.decl? name = some entry → entry.decl.name = name) :
    loader.IsStable := by
  have known : ∀ {name entry}, loader.Declares name entry → source.decl? name = some entry := by
    intro name entry declares
    obtain ⟨other, mem, known⟩ := declares.holds
    rw [single] at mem
    obtain rfl := List.mem_singleton.1 mem
    exact known
  refine ⟨fun declares => named _ _ (known declares), fun first second => ?_⟩
  rw [Option.some.inj ((known first).symm.trans (known second))]

theorem Loader.isStable_ofDecls (decls : List ClassDecl) : (Loader.ofDecls decls).IsStable :=
  Loader.isStable_of_source rfl fun _ _ known =>
    (Loader.mem_of_holds_ofDecls ⟨_, List.mem_cons_self, known⟩).2

/-- A class that exports a function, and another one that has a static initializer, too. -/
def exporting : List ClassDecl :=
  [.ofMethods .object .plain [] [],
    { ClassDecl.ofMethods ⟨"A"⟩ .plain [.object] [] with
      exports := [⟨"main", .function [] .skip⟩] },
    { ClassDecl.ofMethods ⟨"B"⟩ .plain [.object]
        [.plain .staticConstructor .classInit (some .skip)] with
      exports := [⟨"run", .function [] .skip⟩] }]

/-- The function of the class with the static initializer is kept. -/
theorem link_keepsEntries_initializer :
    ∃ program entry, (link {} .nothing [] (Loader.ofDecls exporting)).result = .ok program ∧
      (Loader.ofDecls exporting).Declares ⟨"B"⟩ entry ∧
      program.Has ⟨"B"⟩ (·.KeepsEntries entry.decl) := by
  have linked : (link {} .nothing [] (Loader.ofDecls exporting)).result.toOption.isSome = true := by
    decide +kernel
  have declared : (((Loader.ofDecls exporting).loadDecl ⟨"B"⟩).1.toOption.map fun entry =>
      entry.decl.initializesStatics) = some true := by
    decide +kernel
  generalize links : (link {} .nothing [] (Loader.ofDecls exporting)).result = result at linked
  generalize loads : ((Loader.ofDecls exporting).loadDecl ⟨"B"⟩).1 = answer at declared
  cases result with
  | error => cases linked
  | ok program =>
    cases answer with
    | error => cases declared
    | ok entry =>
      have declares : (Loader.ofDecls exporting).Declares ⟨"B"⟩ entry := ⟨_, .refl, loads⟩
      have asks : entry.decl.AsksForItself := .initializer (Option.some.inj declared)
      obtain ⟨_, _, _, keeps⟩ := link_keepsEntries_iff (Loader.isFaithful_ofDecls exporting)
        (Loader.isStable_ofDecls exporting) links
      exact ⟨program, entry, rfl, declares, (keeps _ _ declares asks.isEntryPoint).2 (.inl asks)⟩

/-- The function of the other class is lost, and its class with it. -/
theorem not_keepsEntries_function :
    ∃ program entry, (link {} .nothing [] (Loader.ofDecls exporting)).result = .ok program ∧
      (Loader.ofDecls exporting).IsFaithful ∧ (Loader.ofDecls exporting).IsStable ∧
      (Loader.ofDecls exporting).Declares ⟨"A"⟩ entry ∧
      (∃ item ∈ entry.decl.exports, ∃ params body, item.target = .function params body) ∧
      ¬ program.Has ⟨"A"⟩ (·.KeepsEntries entry.decl) := by
  have linked : (link {} .nothing [] (Loader.ofDecls exporting)).result.toOption.map
      (fun program => (program.class? ⟨"A"⟩).isSome) = some false := by
    decide +kernel
  have declared : (((Loader.ofDecls exporting).loadDecl ⟨"A"⟩).1.toOption.map fun entry =>
      entry.decl.exports.any fun item => item.target matches .function _ _) = some true := by
    decide +kernel
  generalize links : (link {} .nothing [] (Loader.ofDecls exporting)).result = result at linked
  generalize loads : ((Loader.ofDecls exporting).loadDecl ⟨"A"⟩).1 = answer at declared
  cases result with
  | error => cases linked
  | ok program =>
    cases answer with
    | error => cases declared
    | ok entry =>
      obtain ⟨item, mem, shape⟩ := List.any_eq_true.1 (Option.some.inj declared)
      have function : ∃ params body, item.target = .function params body := by
        cases target : item.target with
        | function params body => exact ⟨params, body, rfl⟩
        | module | jsClass | field => rw [target] at shape; cases shape
      refine ⟨program, entry, rfl, Loader.isFaithful_ofDecls exporting,
        Loader.isStable_ofDecls exporting, ⟨_, .refl, loads⟩, ⟨item, mem, function⟩, ?_⟩
      rintro ⟨kept, found, _⟩
      have absent : (program.class? ⟨"A"⟩).isSome = false := Option.some.inj linked
      rw [found] at absent
      cases absent

end ClassLinker
