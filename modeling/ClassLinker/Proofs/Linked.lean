import ClassLinker.Proofs.Keeping
import ClassLinker.Proofs.Outcomes
import ClassLinker.Proofs.Summaries

/-!
# The code of a linked program

`Linked` ties a program to the state in which its analysis has ended. The program has every class
that is needed (`Linked.has_of_needed`), and whatever the code of the program demands
(`KeptClass.Code`) has been provided by the analysis (`Linked.provides_code`).

The loader must answer faithfully (`Loader.IsFaithful`): summaries are those of the declarations.
What the body of a method demands is known if no class lists a method twice, too
(`Loader.IsCoherent`).
-/

namespace ClassLinker

variable {setting : Setting} {state : State} {loader : Loader} {program : LinkedProgram}
variable {name other : ClassName} {cls record : ClassRecord} {kept : KeptClass}
variable {key : MethodKey}

/-- Summaries are read off declarations, and whatever runs or exports something by itself is an
entry point. -/
structure Loader.IsFaithful (loader : Loader) : Prop where
  summary : ∀ {name entry}, loader.Declares name entry →
    loader.knows name = some entry.decl.summary
  entryPoint : ∀ {name entry}, loader.Declares name entry → entry.decl.isEntryPoint = true →
    name ∈ loader.entryPoints

/-- Summaries are read off declarations that list no method twice, and whatever runs or exports
something by itself is an entry point. -/
structure Loader.IsCoherent (loader : Loader) : Prop where
  summary : ∀ {name entry}, loader.Declares name entry →
    loader.knows name = some entry.decl.summary
  nodup : ∀ {name entry}, loader.Declares name entry → entry.decl.methodKeys.Nodup
  entryPoint : ∀ {name entry}, loader.Declares name entry → entry.decl.isEntryPoint = true →
    name ∈ loader.entryPoints

theorem Loader.IsCoherent.isFaithful (coherent : loader.IsCoherent) : loader.IsFaithful where
  summary := coherent.summary
  entryPoint := coherent.entryPoint

/-- Tells whether the method has been added to call another one of the class. -/
def MethodRecord.isProxy (method : MethodRecord) : Bool :=
  match method.forwarder with
  | some (.proxy _) => true
  | _ => false

/-- Code of a class of a linked program. It is told apart whether it is that of a proxy. -/
inductive KeptClass.Code (kept : KeptClass) (analysis : Analysis) : Bool → Expr → Prop
  | method {method : MethodDecl} {body : Expr} (mem : method ∈ kept.methods)
      (has : method.body = some body) :
      Code kept analysis ((analysis.method? ⟨kept.name, method.space, method.name⟩).any
        MethodRecord.isProxy) body
  | jsConstructor {ctor : JSConstructor} (has : kept.jsConstructor = some ctor) :
      Code kept analysis false ctor.body
  | member {member : ExportedMember} (mem : member ∈ kept.exportedMembers) :
      Code kept analysis false member.body
  | function {item : Export} {params : List Param} {body : Expr} (mem : item ∈ kept.exports)
      (target : item.target = .function params body) : Code kept analysis false body

namespace LinkedProgram

/-- The program has a class of the name, with a property. -/
def Has (program : LinkedProgram) (name : ClassName) (property : KeptClass → Prop) : Prop :=
  ∃ kept, program.class? name = some kept ∧ property kept

theorem Has.imp {property weaker : KeptClass → Prop} (has : program.Has name property)
    (imp : ∀ kept, property kept → weaker kept) : program.Has name weaker := by
  obtain ⟨kept, found, holds⟩ := has
  exact ⟨kept, found, imp kept holds⟩

end LinkedProgram

/-- The arguments of a call that forwards are variables. -/
theorem exists_of_mem_forwarded {params : List Param} {node : Expr}
    (mem : node ∈ (forwarded params).flatMap Expr.nodes) : ∃ name, node = .var name := by
  obtain ⟨arg, listed, inside⟩ := List.mem_flatMap.1 mem
  obtain ⟨param, _, rfl⟩ := List.mem_map.1 listed
  exact ⟨param.name, List.mem_singleton.1 inside⟩

/-- Apart from the call itself, a call on the receiver that forwards its arguments demands
nothing. -/
theorem eq_of_mem_forwarding {call node : Expr} {params : List Param}
    (operands : call.operands = .self :: forwarded params) (inside : node ∈ call.nodes) :
    node = call ∨ node.ownDemands = [] := by
  rw [Expr.nodes_eq, operands, List.flatMap_cons] at inside
  rcases List.mem_cons.1 inside with same | inside
  · exact .inl same
  · rcases List.mem_append.1 inside with inside | inside
    · obtain rfl := List.mem_singleton.1 inside
      exact .inr rfl
    · obtain ⟨_, rfl⟩ := exists_of_mem_forwarded inside
      exact .inr rfl

/-! ### What is kept -/

/-- Each item on the left has its counterpart on the right. -/
theorem exists_of_forall₂_left {α β : Type} {related : α → β → Prop} {first : List α}
    {second : List β} (all : List.Forall₂ related first second) {item : α} (mem : item ∈ first) :
    ∃ partner ∈ second, related item partner := by
  induction all with
  | nil => cases mem
  | cons head _ ih =>
    rcases List.mem_cons.1 mem with rfl | mem
    · exact ⟨_, List.mem_cons_self, head⟩
    · obtain ⟨partner, later, holds⟩ := ih mem
      exact ⟨partner, List.mem_cons_of_mem _ later, holds⟩

/-- A program that has been linked, and the state in which its analysis has ended. -/
structure Linked (setting : Setting) (loader : Loader) (state : State) (program : LinkedProgram) :
    Prop where
  world : setting.world = loader.knows
  faithful : loader.IsFaithful
  entryPoints : setting.entryPoints = loader.entryPoints
  fair : setting.IsFair
  order : state.InOrder setting
  settled : state.isSettled = true
  clean : state.errors = []
  keeps : List.Forall₂ (Keeps loader) state.result.neededClasses program.classes

namespace Linked

variable (linked : Linked setting loader state program)

include linked

theorem mem_neededClasses : cls ∈ state.result.neededClasses ↔
    state.class? cls.name = some cls ∧ cls.isPresent = true ∧ cls.isNeeded = true := by
  rw [← State.class?_result]
  refine Analysis.mem_neededClasses fun {name cls} found => ?_
  rw [State.class?_result] at found
  exact linked.order.valid.follows.name_eq found

/-- Every class of the program is kept of a class that is needed. -/
theorem exists_of_mem (mem : kept ∈ program.classes) :
    ∃ cls, state.class? kept.name = some cls ∧ cls.name = kept.name ∧ Keeps loader cls kept := by
  obtain ⟨cls, needed, keeps⟩ := exists_of_forall₂_left linked.keeps.flip mem
  have keeps : Keeps loader cls kept := keeps
  rw [keeps.flags.1]
  exact ⟨cls, (linked.mem_neededClasses.1 needed).1, rfl, keeps⟩

/-- The program has every class that exists and is needed. -/
theorem has_of_needed (found : state.class? name = some cls) (present : cls.isPresent = true)
    (needed : cls.isNeeded = true) : program.Has name (Keeps loader cls) := by
  obtain rfl := linked.order.valid.follows.name_eq found
  obtain ⟨kept, mem, keeps⟩ := exists_of_forall₂_left linked.keeps
    (linked.mem_neededClasses.2 ⟨found, present, needed⟩)
  have name_eq := keeps.flags.1
  cases first : program.class? cls.name with
  | none =>
    have absent := List.find?_eq_none.1 first kept mem
    exact absurd (decide_eq_true name_eq) absent
  | some earlier =>
    have named : earlier.name = cls.name := by simpa using List.find?_some first
    obtain ⟨cls', found', _, keeps'⟩ := linked.exists_of_mem (List.mem_of_find?_eq_some first)
    rw [named, found] at found'
    obtain rfl := Option.some.inj found'
    exact ⟨earlier, first, keeps'⟩

/-- The summary of a class is that of any declaration of it. -/
theorem summary_eq (found : state.class? name = some cls) {entry : VersionedDecl}
    (declares : loader.Declares name entry) : cls.summary = some entry.decl.summary := by
  rw [linked.order.valid.follows.summary_eq found, linked.world, linked.faithful.summary declares]

/-- A reachable method of a class that exists is in the program. -/
theorem has_of_reached (found : state.class? name = some cls) (present : cls.isPresent = true)
    {method : MethodRecord} (has : cls.method? key = some method)
    (reached : method.isReached = true) :
    program.Has name fun kept => Keeps loader cls kept ∧ kept.Holds key := by
  have listed : method ∈ cls.reached := ClassRecord.mem_reached.2 ⟨⟨key, has⟩, reached⟩
  have needed : cls.isNeeded = true := by
    have some_reached : cls.reached.isEmpty = false := by
      simpa using List.ne_nil_of_mem listed
    simp [ClassRecord.isNeeded, some_reached]
  have id_eq : method.id.key = key := by
    rw [((linked.order.valid.classes found).entries has).id_eq]
    rfl
  exact (linked.has_of_needed found present needed).imp fun kept keeps =>
    ⟨keeps, keeps.holds has id_eq reached⟩

/-! ### What code demands -/

theorem provides_owed {task : Task} {demand : Demand} (owes : state.Owes task)
    (required : task.isOptional = false) (action : task.action = .fulfil demand) :
    state.Provides task.cls demand :=
  linked.order.provides linked.settled linked.clean (linked.order.accounted (.inr owes)) required
    action

/-- The body of a declared method that is kept has all that it demands. -/
theorem provides_body (found : state.class? name = some cls) {entry : VersionedDecl}
    (declares : loader.Declares name entry) (nodup : entry.decl.methodKeys.Nodup)
    {method : MethodDecl} (mem : method ∈ entry.decl.methods)
    (keeps : cls.keepsMethod method = true) {body : Expr} (has : method.body = some body)
    {demand : ClassName × Demand} (demands : demand ∈ body.demands.toList) :
    state.Provides demand.1 demand.2 := by
  have valid := linked.order.valid
  have summary := linked.summary_eq found declares
  obtain ⟨known, hasEntry, shape⟩ := (Option.any_eq_true ..).1 keeps
  simp only [Bool.and_eq_true, Option.isNone_iff_eq_none] at shape
  have listed : method.summary ∈ entry.decl.summary.methods := List.mem_map_of_mem mem
  have present : known.isPresent = true :=
    (valid.classes found).isPresent_of_listed summary listed hasEntry
  have declared := ClassDecl.method?_summary nodup mem
  have demands : demand ∈ method.summary.demands.toList := by
    simpa [MethodDecl.summary, has] using demands
  let id : MethodId := ⟨name, method.space, method.name⟩
  have found' : state.class? id.owner = some cls := found
  have owes := valid.owes_body found' hasEntry shape.1 present shape.2 summary declared demands
  exact linked.provides_owed owes rfl rfl

/-- The exported members of a class with instances, and its JavaScript constructor, have all that
they demand. -/
theorem provides_member (found : state.class? name = some cls) (has : cls.hasInstances = true)
    {entry : VersionedDecl} (declares : loader.Declares name entry) {demands : Demands}
    (mem : demands ∈ entry.decl.summary.exportedMembers) {demand : ClassName × Demand}
    (listed : demand ∈ demands.toList) : state.Provides demand.1 demand.2 := by
  have due := State.mem_instanceDues_of_member (linked.summary_eq found declares) mem listed
  exact linked.provides_owed (.instances found has due) rfl rfl

/-- So has every exported function. -/
theorem provides_function (found : state.class? name = some cls) {entry : VersionedDecl}
    (declares : loader.Declares name entry) {item : Export} (mem : item ∈ entry.decl.exports)
    {params : List Param} {body : Expr} (target : item.target = .function params body)
    {demand : ClassName × Demand} (listed : demand ∈ body.demands.toList) :
    state.Provides demand.1 demand.2 := by
  have isEntryPoint : entry.decl.isEntryPoint = true := by
    have nonempty : entry.decl.exports.isEmpty = false := by
      simpa using List.ne_nil_of_mem mem
    simp [ClassDecl.isEntryPoint, nonempty]
  have isEntry : name ∈ setting.entryPoints :=
    linked.entryPoints ▸ linked.faithful.entryPoint declares isEntryPoint
  have demands : demand ∈ (item.target.demands entry.decl.name).toList := by
    simpa [ExportTarget.demands, target] using listed
  have due := State.mem_entryTasks_of_export (linked.summary_eq found declares)
    (List.mem_map_of_mem mem) demands
  exact linked.order.provides_entry linked.settled linked.clean isEntry found due rfl rfl

/-- A bridge has the default method that it forwards to, and a proxy its target. -/
theorem forwards_of_made (found : state.class? name = some cls) {method : MethodRecord}
    (mem : method ∈ cls.reached) :
    (∀ interface, method.forwarder = some (.bridge interface) →
        state.Provides interface (.callDirect ⟨.publicInstance, method.id.name⟩)) ∧
      ∀ target, method.forwarder = some (.proxy target) → state.Dispatched name target ∧
        (state.method? ⟨name, .publicInstance, method.id.name⟩) = some method := by
  have valid := linked.order.valid
  obtain ⟨⟨key, has⟩, reached⟩ := ClassRecord.mem_reached.1 mem
  have form := (valid.classes found).entries has
  refine ⟨fun interface forwarder => ?_, fun target forwarder => ?_⟩
  · let demand : Demand := .callDirect ⟨.publicInstance, method.id.name⟩
    have due : { cls := interface, action := .fulfil demand, cause := .method method.id } ∈
        State.methodTasks cls method := by
      simp only [State.methodTasks, forwarder, List.mem_singleton, demand]
    exact linked.provides_owed (.body found has reached due) rfl rfl
  · have name_eq : cls.name = name := valid.follows.name_eq found
    have id_eq : method.id = ⟨name, key.space, key.name⟩ := by
      rw [form.id_eq]
      exact congrArg (MethodId.mk · key.space key.name) name_eq
    have space : key.space = .publicInstance := by
      cases form with
      | added _ space => exact space
      | declared _ _ _ _ own | missing _ _ _ own => rw [forwarder] at own; cases own
    have due : { cls := name, action := .callExact target, cause := .method method.id } ∈
        State.methodTasks cls method := by
      simp only [State.methodTasks, forwarder, id_eq, List.mem_singleton]
    obtain ⟨_, _, _, dispatched⟩ := linked.order.exists_of_covers linked.settled linked.clean
      (linked.order.accounted (.inr (.body found has reached due))) rfl
    refine ⟨dispatched, ?_⟩
    rw [id_eq, State.method?, found, Option.bind_some, ← space]
    exact has

/-- Code that a class of the program holds has all that it demands, or it is that of a proxy, which
has its target. -/
theorem provides_code (coherent : loader.IsCoherent) (mem : kept ∈ program.classes)
    {isProxy : Bool} {expr : Expr}
    (code : kept.Code state.result isProxy expr) :
    (∀ node ∈ expr.nodes, ∀ demand ∈ node.ownDemands, state.Provides demand.1 demand.2) ∨
      isProxy = true ∧ ∃ (proxy : MethodName) (target : MethodDecl),
        state.Dispatched kept.name target.name ∧
          (MethodDecl.proxy proxy kept.name target).body = some expr := by
  obtain ⟨cls, found, name_eq, entry, made, declares, makes, same⟩ := linked.exists_of_mem mem
  rw [name_eq] at declares
  obtain ⟨_, shape⟩ := KeptClass.ofRecord_eq_ok.1 same
  have nodewise : (∀ demand ∈ expr.demands.toList, state.Provides demand.1 demand.2) →
      ∀ node ∈ expr.nodes, ∀ demand ∈ node.ownDemands, state.Provides demand.1 demand.2 :=
    fun provides node inside demand demands =>
      provides demand (Expr.mem_demands.2 ⟨node, inside, demands⟩)
  cases code with
  | @method method _ listed has =>
    have methods : kept.methods = entry.decl.methods.filter cls.keepsMethod ++ made := by rw [shape]
    rw [methods] at listed
    rcases List.mem_append.1 listed with declared | added
    · obtain ⟨declared, keeps⟩ := List.mem_filter.1 declared
      exact .inl (nodewise fun demand demands =>
        linked.provides_body found declares (coherent.nodup declares) declared keeps has demands)
    · obtain ⟨known, reached, forwarder, forwards, makes⟩ := makes method added
      obtain ⟨bridges, proxies⟩ := linked.forwards_of_made found reached
      cases makes with
      | bridge interface target =>
        obtain rfl := Option.some.inj has
        refine .inl fun node inside demand demands => ?_
        obtain rfl : demand = (interface, .callDirect ⟨.publicInstance, known.id.name⟩) := by
          rcases eq_of_mem_forwarding rfl inside with rfl | silent
          · exact List.mem_singleton.1 demands
          · rw [silent] at demands
            cases demands
        exact bridges interface forwards
      | @proxy called target named =>
        obtain ⟨dispatched, entered⟩ := proxies called forwards
        refine .inr ⟨?_, known.id.name, target, named ▸ dispatched, name_eq ▸ has⟩
        show Option.any _ (state.result.method? ⟨kept.name, .publicInstance, known.id.name⟩) = true
        have same : state.result.method? ⟨kept.name, .publicInstance, known.id.name⟩ =
            some known := by
          rw [← entered, Analysis.method?, State.method?, State.class?_result]
        rw [same, Option.any_some, MethodRecord.isProxy, forwards]
  | @jsConstructor ctor has =>
    refine .inl (nodewise fun demand demands => ?_)
    rw [shape] at has
    simp only at has
    split at has
    · rename_i instances
      refine linked.provides_member found instances declares (List.mem_append_left _ ?_) demands
      exact List.mem_map.2 ⟨ctor, Option.mem_toList.2 has, rfl⟩
    · cases has
  | @member member listed =>
    refine .inl (nodewise fun demand demands => ?_)
    rw [shape] at listed
    simp only at listed
    split at listed
    · rename_i instances
      exact linked.provides_member found instances declares
        (List.mem_append_right _ (List.mem_map_of_mem listed))
        (ExportedMember.mem_demands.2 (.inr demands))
    · cases listed
  | @function item params _ listed target =>
    refine .inl (nodewise fun demand demands => ?_)
    rw [shape] at listed
    exact linked.provides_function found declares listed target demands

end Linked

/-- A program that is linked is that of an analysis that had nothing to do, and then it is empty,
or it is tied to the state in which its analysis has ended. -/
theorem exists_linked_of_link {options : LinkOptions} {requirement : Requirement}
    {startup : List StartupCall} (faithful : loader.IsFaithful)
    (links : (link options requirement startup loader).result = .ok program) :
    ∃ analysis after,
      analyze options.allowForwarders (requirement + startupRequirement startup) loader =
        (.ok analysis, after) ∧
      (loader.entryPoints = [] ∧ program.classes = [] ∨
        ∃ state, analysis = state.result ∧
          Linked (loader.settingFor options.allowForwarders
            (requirement + startupRequirement startup) fun _ => True) loader state program) := by
  obtain ⟨analysis, after, ends, clean, keeps⟩ := exists_of_link links
  refine ⟨analysis, after, ends, ?_⟩
  obtain ⟨loads, ⟨_, idle, rfl⟩ | ⟨unrooted, empty⟩ | ⟨rooted, runs⟩⟩ := analyze_cases ends
  · have needed : ({} : Analysis).neededClasses = [] := rfl
    rw [needed] at keeps
    exact .inl ⟨idle, List.forall₂_nil_left_iff.1 keeps⟩
  · obtain ⟨idle, _⟩ := idle_of_unrooted ends unrooted clean
    have needed : analysis.neededClasses = [] := by
      simp [Analysis.neededClasses, Analysis.classList, empty]
    rw [needed] at keeps
    exact .inl ⟨idle, List.forall₂_nil_left_iff.1 keeps⟩
  · have fair := @Loader.isFair_settingFor loader options.allowForwarders
      (requirement + startupRequirement startup) rooted
    obtain ⟨state, order, settled, rfl⟩ := runs _ fair
    refine .inr ⟨state, rfl, {
      world := rfl
      faithful := faithful
      entryPoints := rfl
      fair := fair
      order := order
      settled := settled
      clean := List.eq_nil_iff_forall_not_mem.2 fun error mem => ?_
      keeps := keeps.imp fun _ _ all => all.keeps.of_loads loads }⟩
    have mem := State.mem_errors_result mem
    rw [clean] at mem
    cases mem

end ClassLinker
