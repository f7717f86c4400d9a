import ClassLinker.Proofs.Bridges
import ClassLinker.Proofs.Outcomes

/-!
# Bridges that hide default methods

Resolution should go by what the classes declare, not by what has been resolved before. But a bridge
in a super class is code like any other, and a class below it may inherit more interfaces: one that
overrides the default method which the bridge calls, or one that conflicts with it. The bridge is
found first and hides them.

* `State.endOf`: the class whose declared method runs in the end when a method is called;
* `State.ResolvesAsDeclared`: resolution ends where the declared classes say, and reports conflicts;
* `State.HidesNothing`: a bridge that is found in a super class calls the first default method of
  the class itself, whose conflicts have been reported.

In every state that a run can come to the two are the same (`resolvesAsDeclared_iff_hidesNothing`).
-/

namespace ClassLinker

variable {setting : Setting} {state next : State}
variable {name owner upper : ClassName} {cls record : ClassRecord} {method : MethodName}

namespace State

/-- The class whose declared method runs when a method is called: a bridge calls that of an
interface. -/
def endOf (state : State) (id : MethodId) : ClassName :=
  match state.forwarder? id with
  | some (.bridge interface) => interface
  | _ => id.owner

/-- The state after a call whose target is the one that resolution gives. -/
def callResolved (state : State) (name : ClassName) (method : MethodName) (cause : Cause) : State :=
  (state.resolve name method cause).2.addCaller (state.resolve name method cause).1 cause

/-- Resolving a method for instances of a class ends at what implements it as the classes are
declared, and conflicts between default methods are among the errors of all later states. -/
structure ResolvesAsDeclared (setting : Setting) (state : State) (name : ClassName)
    (method : MethodName) (cause : Cause) : Prop where
  target : ∀ owner, Implements setting.world.classes name method owner →
    (state.resolve name method cause).2.endOf (state.resolve name method cause).1 = owner
  conflict : (∀ owner, ¬ Implementor setting.world.classes method name owner) →
    2 ≤ (defaultOwnersIn setting.world.classes name method).length →
      ∀ later, Moves setting (state.callResolved name method cause) later →
        later.ReportsConflict setting name method

/-- A bridge that is found above a class calls the first default method that the class inherits,
and if others conflict with that one, this has been reported. -/
def HidesNothing (setting : Setting) (state : State) (name : ClassName) (method : MethodName) :
    Prop :=
  ∀ upper interface, state.superImplementor? name method = some upper → upper ≠ name →
    state.forwarder? ⟨upper, .publicInstance, method⟩ = some (.bridge interface) →
      (defaultOwnersIn setting.world.classes name method).head? = some interface ∧
        (2 ≤ (defaultOwnersIn setting.world.classes name method).length →
          state.ReportsConflict setting name method)

/-! ### What resolution leaves behind -/

theorem errors_addCaller (state : State) (id : MethodId) (cause : Cause) :
    (state.addCaller id cause).errors = state.errors := by
  unfold addCaller
  split
  · rfl
  · split
    · rfl
    · simp only
      split <;> rfl

theorem endOf_of_own {id : MethodId} (own : state.forwarder? id = none) :
    state.endOf id = id.owner := by
  rw [endOf, own]

theorem endOf_of_bridge {id : MethodId} {interface : ClassName}
    (bridge : state.forwarder? id = some (.bridge interface)) : state.endOf id = interface := by
  rw [endOf, bridge]

/-- A forwarder that is added to a linked class can be read back. -/
theorem forwarder?_addForwarder (found : state.class? name = some cls) (forwarder : Forwarder) :
    (state.addForwarder name method forwarder).2.forwarder? ⟨name, .publicInstance, method⟩ =
      some forwarder := by
  simp [addForwarder, modifyClass, found, forwarder?, method?, ClassRecord.putMethod,
    ClassRecord.method?, MethodId.key]

theorem errors_addForwarder (state : State) (forwarder : Forwarder) :
    (state.addForwarder name method forwarder).2.errors = state.errors := by
  unfold addForwarder modifyClass
  simp only
  split <;> rfl

/-- Where there is code in the super classes, nothing is added. -/
theorem resolve_of_inherited (inherited : state.superImplementor? name method = some upper)
    (cause : Cause) :
    state.resolve name method cause = (⟨upper, .publicInstance, method⟩, state) := by
  rw [resolve, inherited]

/-! ### The cases of resolution -/

namespace Valid

/-- Nothing is added to interfaces. -/
theorem forwarder?_eq_none (valid : state.Valid setting) (found : state.class? name = some cls)
    (kind : cls.kind = .interface) :
    state.forwarder? ⟨name, .publicInstance, method⟩ = none := by
  rw [forwarder?, method?, found, Option.bind_some]
  cases entered : cls.method? ⟨.publicInstance, method⟩ with
  | none => exact congrArg (·.bind MethodRecord.forwarder) entered
  | some entry =>
    refine (congrArg (·.bind MethodRecord.forwarder) entered).trans ?_
    cases (valid.classes found).entries entered with
    | declared _ _ _ _ forwarder | missing _ _ _ forwarder => exact forwarder
    | added _ _ _ not_interface => exact absurd kind not_interface

/-- Resolution goes as declared if it finds declared code. -/
theorem resolves_of_own (valid : state.Valid setting)
    (inherited : state.superImplementor? name method = some upper)
    (implementor : Implementor state.class? method name upper)
    (own : state.forwarder? ⟨upper, .publicInstance, method⟩ = none) (cause : Cause) :
    state.ResolvesAsDeclared setting name method cause := by
  obtain ⟨record, found, has⟩ := implementor.has_code
  have declared : Implementor setting.world.classes method name upper :=
    (valid.implementor_declared_iff implementor upper).2 (valid.declares_of_own found has own)
  refine ⟨fun owner implements => ?_, fun lacks => absurd declared (lacks upper)⟩
  rw [resolve_of_inherited inherited]
  exact (endOf_of_own own).trans (Implements.unique (.inl declared) implements)

/-- If resolution finds a bridge, it depends on the bridge whether it goes as declared. -/
theorem resolves_of_bridge (valid : state.Valid setting) (fair : setting.IsFair)
    (found : state.class? name = some cls)
    (inherited : state.superImplementor? name method = some upper)
    (implementor : Implementor state.class? method name upper) {interface : ClassName}
    (bridge : state.forwarder? ⟨upper, .publicInstance, method⟩ = some (.bridge interface))
    (fits : state.Fits setting upper method (.bridge interface)) (cause : Cause) :
    state.ResolvesAsDeclared setting name method cause ↔
      (defaultOwnersIn setting.world.classes name method).head? = some interface ∧
        (2 ≤ (defaultOwnersIn setting.world.classes name method).length →
          state.ReportsConflict setting name method) := by
  obtain ⟨lacks_above, first_above, _⟩ := fits
  have lacks : ∀ owner, ¬ Implementor setting.world.classes method name owner := fun owner up =>
    lacks_above owner ((valid.implementor_declared_iff implementor owner).1 up)
  have resolves := resolve_of_inherited inherited cause
  have errors : (state.callResolved name method cause).errors = state.errors := by
    rw [callResolved, resolves, errors_addCaller]
  constructor
  · rintro ⟨target, conflict⟩
    have some_owner : defaultOwnersIn setting.world.classes name method ≠ [] := by
      intro empty
      have follows := Universe.follows_classes fair.rooted
      have mem := implementor.mem_ancestors valid.follows fair.rooted found
      rw [defaultOwnersIn_eq_nil_of_mem follows fair.rooted (valid.follows.classes_eq found) mem
        empty] at first_above
      cases first_above
    refine ⟨?_, fun several => ?_⟩
    · obtain ⟨first, others, owners⟩ := List.exists_cons_of_ne_nil some_owner
      have ends := target first (.inr ⟨lacks, by rw [owners]; rfl⟩)
      rw [resolves] at ends
      rw [owners, List.head?_cons, ← ends, endOf_of_bridge bridge]
    · obtain ⟨cause, mem⟩ := conflict lacks several _ .refl
      exact ⟨cause, errors ▸ mem⟩
  · rintro ⟨first, reported⟩
    refine ⟨fun owner implements => ?_, fun _ several later moves => ?_⟩
    · rw [resolves]
      exact (endOf_of_bridge bridge).trans (Implements.unique (.inr ⟨lacks, first⟩) implements)
    · obtain ⟨cause, mem⟩ := reported several
      exact ⟨cause, (Moves.grows moves).errors.subset (errors ▸ mem)⟩

/-- Resolution goes as declared if there is no code in the super classes. -/
theorem resolves_of_none (valid : state.Valid setting) (fair : setting.IsFair)
    (found : state.class? name = some cls)
    (inherited : state.superImplementor? name method = none) (cause : Cause) :
    state.ResolvesAsDeclared setting name method cause := by
  have lacks : ∀ owner, ¬ Implementor setting.world.classes method name owner := by
    intro owner declared
    obtain ⟨nearest, implementor⟩ := valid.exists_implementor fair found declared
    exact (superImplementor?_eq_none valid.follows fair.rooted found).1 inherited _ implementor
  have declared := valid.defaultOwners_eq found method
  cases owners : state.defaultOwners name method with
  | nil =>
    rw [owners] at declared
    refine ⟨fun owner implements => ?_, fun _ several => ?_⟩
    · rcases implements with up | ⟨_, first⟩
      · exact absurd up (lacks owner)
      · rw [← declared] at first; cases first
    · rw [← declared] at several
      exact absurd several (by decide)
  | cons first others =>
    let reported := state.extend [] (conflictErrors method (first :: others) cause)
    obtain ⟨ends, errors⟩ :
        (state.resolve name method cause).2.endOf (state.resolve name method cause).1 = first ∧
          (state.resolve name method cause).2.errors = reported.errors := by
      rw [resolve_eq found inherited owners]
      split
      · obtain ⟨_, record, found', kind, _⟩ := exists_of_defaultOwners valid.follows found owners
        exact ⟨endOf_of_own (valid.forwarder?_eq_none found' kind), rfl⟩
      · have found : reported.class? name = some cls := found
        exact ⟨endOf_of_bridge (forwarder?_addForwarder found _), errors_addForwarder ..⟩
    rw [owners] at declared
    refine ⟨fun owner implements => ?_, fun _ several later moves => ⟨cause, ?_⟩⟩
    · have head : (defaultOwnersIn setting.world.classes name method).head? = some first := by
        rw [← declared]; rfl
      exact ends.trans (Implements.unique (.inr ⟨lacks, head⟩) implements)
    · refine (Moves.grows moves).errors.subset ?_
      rw [callResolved, errors_addCaller, errors, ← declared]
      rw [← declared] at several
      exact List.mem_append_right _ (mem_conflictErrors several)

/-- Resolution goes as declared exactly if no bridge hides anything. -/
theorem resolvesAsDeclared_iff (valid : state.Valid setting) (fair : setting.IsFair)
    (bridged : state.Bridged setting) (found : state.class? name = some cls)
    (direct : method.isProxy = false) (cause : Cause) :
    state.ResolvesAsDeclared setting name method cause ↔
      state.HidesNothing setting name method := by
  cases inherited : state.superImplementor? name method with
  | none =>
    refine iff_of_true (valid.resolves_of_none fair found inherited cause) fun upper _ h => ?_
    rw [inherited] at h; cases h
  | some upper =>
    have implementor := (superImplementor?_eq_some valid.follows fair.rooted found).1 inherited
    have only : ∀ {other}, state.superImplementor? name method = some other → other = upper :=
      fun h => Option.some.inj (h.symm.trans inherited)
    cases added : state.forwarder? ⟨upper, .publicInstance, method⟩ with
    | none =>
      refine iff_of_true (valid.resolves_of_own inherited implementor added cause)
        fun other _ h _ bridge => ?_
      rw [only h, added] at bridge; cases bridge
    | some forwarder =>
      have fits := bridged ⟨upper, .publicInstance, method⟩ forwarder added
      cases forwarder with
      | proxy target => rw [show method.isProxy = true from fits.1] at direct; cases direct
      | bridge interface =>
        rw [valid.resolves_of_bridge fair found inherited implementor added fits]
        constructor
        · intro holds other _ h _ bridge
          rw [only h, added] at bridge
          cases bridge
          exact holds
        · intro nothing
          by_cases own : upper = name
          · exact own ▸ fits.2
          · exact nothing upper interface inherited own added

end Valid

end State

/-! ### Runs -/

/-- What the runs over the classes of a loader are about, with nothing said about facts. -/
def Loader.runs (loader : Loader) (allowForwarders : Bool) (requirement : Requirement) : Setting :=
  loader.settingFor allowForwarders requirement fun _ => True

/-- A run only comes to states that moves lead to. -/
theorem State.reached_of_settle {loader after : Loader} {allowForwarders : Bool}
    {requirement : Requirement} {root : ClassSummary} {steps : Nat}
    (known : loader.knows .object = some root) (isRoot : root.isRoot = true)
    (ends : (State.start allowForwarders root requirement loader.entryPoints).settle steps loader =
      (.ok state, after)) :
    Moves (loader.runs allowForwarders requirement) { allowForwarders } state := by
  have fair : (loader.runs allowForwarders requirement).IsFair :=
    Loader.isFair_settingFor ⟨root, known, isRoot⟩
  exact (inOrder_settle fair steps rfl (inOrder_start fair known isRoot) ends).1.reached

/-- In every state that a run can come to, in whatever order its tasks are done, resolving a method
that is no proxy goes as declared exactly if no inherited bridge hides anything. -/
theorem resolvesAsDeclared_iff_hidesNothing {loader : Loader} {allowForwarders : Bool}
    {requirement : Requirement} (rooted : loader.knows.IsRooted)
    (reached : Moves (loader.runs allowForwarders requirement) { allowForwarders } state)
    (found : state.class? name = some cls) (direct : method.isProxy = false) (cause : Cause) :
    state.ResolvesAsDeclared (loader.runs allowForwarders requirement) name method cause ↔
      state.HidesNothing (loader.runs allowForwarders requirement) name method := by
  have fair : (loader.runs allowForwarders requirement).IsFair := Loader.isFair_settingFor rooted
  have valid := Moves.valid fair reached (State.valid_empty _)
  have bridged := Moves.bridged fair (State.valid_empty _) (State.bridged_empty _) reached
  exact valid.resolvesAsDeclared_iff fair bridged found direct cause

/-- An interface and one that overrides its method, a class that inherits the method from the first,
and a class below it that implements some more interfaces. -/
def belowBridge (interfaces : List ClassName) : List ClassDecl :=
  let code : List MethodDecl := [.plain .publicInstance ⟨"foo__V"⟩ (some .skip)]
  let init : List MethodDecl := [.plain .constructor .defaultConstructor (some .skip)]
  [.ofMethods .object .plain [] [],
    .ofMethods ⟨"I"⟩ .interface [] code,
    .ofMethods ⟨"J"⟩ .interface [⟨"I"⟩] code,
    .ofMethods ⟨"B"⟩ .plain [.object, ⟨"I"⟩] init,
    .ofMethods ⟨"A"⟩ .plain (⟨"B"⟩ :: interfaces) init]

/-- The method is called on instances of the upper class before there are any of the lower one. -/
def callAbove : Requirement :=
  .every [.instances "tests" ⟨"B"⟩ .defaultConstructor, .call "tests" ⟨"B"⟩ ⟨"foo__V"⟩,
    .instances "tests" ⟨"A"⟩ .defaultConstructor]

/-- The root class of these classes. -/
def plainRoot : ClassSummary := (ClassDecl.ofMethods .object .plain [] []).summary

/-- A run over these classes ends with a bridge in the upper class, which resolution finds for the
lower class. -/
theorem exists_belowBridge {interfaces owners : List ClassName}
    (known : (Loader.ofDecls (belowBridge interfaces)).knows .object = some plainRoot)
    (told : ((State.start true plainRoot callAbove
        (Loader.ofDecls (belowBridge interfaces)).entryPoints).settle 40
          (Loader.ofDecls (belowBridge interfaces))).1.toOption.map (fun state =>
        ((state.class? ⟨"A"⟩).map fun cls => cls.kind.isOrdinary,
          state.superImplementor? ⟨"A"⟩ ⟨"foo__V"⟩,
          state.forwarder? ⟨⟨"B"⟩, .publicInstance, ⟨"foo__V"⟩⟩,
          state.defaultOwners ⟨"A"⟩ ⟨"foo__V"⟩)) =
      some (some true, some ⟨"B"⟩, some (.bridge ⟨"I"⟩), owners)) :
    ∃ state cls, Moves ((Loader.ofDecls (belowBridge interfaces)).runs true callAbove)
        { allowForwarders := true } state ∧
      state.class? ⟨"A"⟩ = some cls ∧ cls.kind.isOrdinary = true ∧
      state.superImplementor? ⟨"A"⟩ ⟨"foo__V"⟩ = some ⟨"B"⟩ ∧
      state.forwarder? ⟨⟨"B"⟩, .publicInstance, ⟨"foo__V"⟩⟩ = some (.bridge ⟨"I"⟩) ∧
      defaultOwnersIn ((Loader.ofDecls (belowBridge interfaces)).runs true callAbove).world.classes
        ⟨"A"⟩ ⟨"foo__V"⟩ = owners := by
  obtain ⟨state, after, ends, told⟩ := exists_of_toOption_map told
  have reached := State.reached_of_settle known rfl ends
  have valid := Moves.valid (Loader.isFair_settingFor ⟨_, known, rfl⟩) reached
    (State.valid_empty _)
  simp only [Prod.mk.injEq] at told
  obtain ⟨lower, inherited, bridge, owners_eq⟩ := told
  obtain ⟨cls, found, kind⟩ := Option.map_eq_some_iff.1 lower
  exact ⟨state, cls, reached, found, kind, inherited, bridge,
    (valid.defaultOwners_eq found _).symm.trans owners_eq⟩

/-- The bridge is shared if the lower class implements nothing more. -/
theorem resolvesAsDeclared_sharedBridge :
    let setting := (Loader.ofDecls (belowBridge [])).runs true callAbove
    ∃ state, Moves setting { allowForwarders := true } state ∧
      state.superImplementor? ⟨"A"⟩ ⟨"foo__V"⟩ = some ⟨"B"⟩ ∧
      state.ResolvesAsDeclared setting ⟨"A"⟩ ⟨"foo__V"⟩ .exports := by
  have known : (Loader.ofDecls (belowBridge [])).knows .object = some plainRoot := by
    decide +kernel
  obtain ⟨state, cls, reached, found, _, inherited, bridge, owners⟩ :=
    @exists_belowBridge [] [⟨"I"⟩] known (by decide +kernel)
  refine ⟨state, reached, inherited,
    (resolvesAsDeclared_iff_hidesNothing ⟨_, known, rfl⟩ reached found rfl .exports).2 ?_⟩
  intro upper interface h _ added
  obtain rfl := Option.some.inj (h.symm.trans inherited)
  rw [bridge] at added
  cases added
  rw [owners]
  exact ⟨rfl, fun several => absurd several (by decide)⟩

/-- The bridge hides the default method of an interface that the lower class implements. -/
theorem not_resolvesAsDeclared_belowBridge :
    let setting := (Loader.ofDecls (belowBridge [⟨"J"⟩])).runs true callAbove
    ¬ ∀ state, Moves setting { allowForwarders := true } state →
      ∀ name cls method cause, state.class? name = some cls → cls.kind.isOrdinary = true →
        method.isProxy = false → state.ResolvesAsDeclared setting name method cause := by
  intro setting declared
  have known : (Loader.ofDecls (belowBridge [⟨"J"⟩])).knows .object = some plainRoot := by
    decide +kernel
  obtain ⟨state, cls, reached, found, kind, inherited, bridge, owners⟩ :=
    @exists_belowBridge [⟨"J"⟩] [⟨"J"⟩] known (by decide +kernel)
  have fair : setting.IsFair := Loader.isFair_settingFor ⟨_, known, rfl⟩
  have valid := Moves.valid fair reached (State.valid_empty _)
  have bridged := Moves.bridged fair (State.valid_empty _) (State.bridged_empty _) reached
  have hides := (valid.resolvesAsDeclared_iff fair bridged found rfl .exports).1
    (declared state reached ⟨"A"⟩ cls ⟨"foo__V"⟩ .exports found kind rfl)
  have first := (hides _ _ inherited (by decide) bridge).1
  rw [owners] at first
  exact absurd first (by decide)

end ClassLinker
