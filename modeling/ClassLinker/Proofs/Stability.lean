import ClassLinker.Proofs.Absorption
import ClassLinker.Proofs.Retention

/-!
# Resolution that stays what it was

A call may add a bridge or a proxy to a class, or an absent method, and the next call finds a class
that is not the same as before. Still, once a call has been made, a later call of the same method on
instances of the same class has the same target, and does not add anything.

* `Moves.resolvesTo`: what is added to the classes between a class and the target of a call does not
  come in its way (`Change.resolvesTo`). `Moves.resolve_eq` says what that means for a later call;
* `Moves.stays_of_proxy`: what a class has for a reflective proxy is called again, but not replaced;
* `resolution_stable` puts the two together, for any call of a run and any later state.
-/

namespace ClassLinker

variable {setting : Setting} {state next later : State}
variable {name owner : ClassName} {cls record : ClassRecord} {key : MethodKey}
variable {entry : MethodRecord} {method : MethodName} {cause : Cause} {errors : List Diagnostic}
variable {allow : Bool} {requirement : Requirement} {loader : Loader}

/-! ### Resolved calls -/

namespace State.ResolvesTo

/-- The target does not depend on what makes the call. -/
theorem exists_errors (resolves : state.ResolvesTo name method cause owner errors)
    (other : Cause) : ∃ errors, state.ResolvesTo name method other owner errors := by
  cases resolves with
  | inherited implementor => exact ⟨_, .inherited implementor⟩
  | default lacks owners bare => exact ⟨_, .default lacks owners bare⟩
  | missing lacks => exact ⟨_, .missing lacks⟩

/-- Taking tasks off the list is no matter. -/
theorem withWork (resolves : state.ResolvesTo name method cause owner errors) (rest : List Task) :
    ({ state with work := rest } : State).ResolvesTo name method cause owner errors := by
  cases resolves with
  | inherited implementor => exact .inherited implementor
  | default lacks owners bare => exact .default lacks owners bare
  | missing lacks => exact .missing ⟨lacks.lacks, lacks.owners⟩

end State.ResolvesTo

section

variable (fair : setting.IsFair) (valid : state.Valid setting)
  (direct : (method.isProxy && setting.allow) = false)

include fair valid direct

/-- What a resolution leads to, it leads to for the rest of the run. -/
theorem Moves.resolvesTo (moves : Moves setting state next) (found : state.class? name = some cls)
    (resolves : state.ResolvesTo name method cause owner errors) :
    next.ResolvesTo name method cause owner errors := by
  induction moves with
  | refl => exact resolves
  | tail early move ih =>
    obtain ⟨record, found', _⟩ := (Moves.grows early).classes found
    cases move with
    | change change =>
      exact change.resolvesTo fair (Moves.valid fair early valid) direct found' ih
    | take => exact ih.withWork _

/-- Resolving a method once more that has been called has the same target, and changes nothing but
the errors. -/
theorem Moves.resolve_eq (full : ∀ fact, setting.facts fact) (found : state.class? name = some cls)
    (moves : Moves setting (state.callResolved name method cause) next) (other : Cause) :
    ∃ errors, next.resolve name method other =
      ((state.resolve name method cause).1, next.extend [] errors) := by
  have changes : Changes setting state (state.callResolved name method cause) :=
    (State.calls_resolve fair valid (Setting.grants_of_full full _ _) found cause).1.changes
  obtain ⟨owner, errors, target, resolves, called, _⟩ :=
    State.resolvesTo_callResolved fair valid found direct changes
  have valid' : (state.callResolved name method cause).Valid setting :=
    Changes.valid fair changes valid
  obtain ⟨_, found', _⟩ := (Changes.grows changes).classes found
  obtain ⟨_, found'', _⟩ := (Moves.grows moves).classes found'
  obtain ⟨entry, has, _⟩ := (Moves.grows moves).isReached called.reached
  obtain ⟨errors, resolves⟩ :=
    (Moves.resolvesTo fair valid' direct moves found' resolves).exists_errors other
  rw [target]
  exact ⟨errors, resolves.resolve_eq fair (Moves.valid fair moves valid') found'' has⟩

end

/-! ### Proxies -/

section

variable (valid : state.Valid setting)
  (reserved : setting.allow = true → setting.world.ReservesProxies)
  (isProxy : method.isProxy = true)

include valid reserved isProxy

/-- What a class has for a reflective proxy is not replaced. -/
theorem Change.stays_of_proxy (change : Change setting state next)
    (at_ : state.method? ⟨name, .publicInstance, method⟩ = some entry) :
    ∃ later, next.method? ⟨name, .publicInstance, method⟩ = some later ∧ entry.Stays later := by
  obtain ⟨cls, found, has⟩ := Option.bind_eq_some_iff.1 at_
  obtain ⟨record, found', _⟩ := change.grows.classes found
  have kept : record.method? ⟨.publicInstance, method⟩ = some entry →
      ∃ later, next.method? ⟨name, .publicInstance, method⟩ = some later ∧ entry.Stays later :=
    fun has => ⟨entry, by rw [State.method?, found']; exact has, .refl entry⟩
  rcases change.class_cases found' with same | ⟨unlinked, _⟩ | ⟨before, _, _, at_', update, _⟩
  · obtain rfl := Option.some.inj (found.symm.trans same)
    exact kept has
  · rw [found] at unlinked
    cases unlinked
  · obtain rfl := Option.some.inj (found.symm.trans at_')
    cases update with
    | use | creator | instances | inhabit | note => exact kept has
    | @call cause key called _ enters =>
      by_cases is_called : key = ⟨.publicInstance, method⟩
      · subst is_called
        have at_next : next.method? ⟨name, .publicInstance, method⟩ =
            some (called.calledBy cause) := by
          rw [State.method?, found', Option.bind_some]
          exact (ClassRecord.method?_withCall ..).trans (if_pos rfl)
        refine ⟨_, at_next, ?_⟩
        cases enters with
        | found own =>
          obtain rfl := Option.some.inj (has.symm.trans own)
          exact .calledBy entry cause
        | missing lacks | proxy _ _ _ lacks => cases lacks.symm.trans has
        | bridge allowed _ _ owners =>
          -- A bridge is for a default method, which no interface declares by this name.
          rw [valid.follows.name_eq found] at owners
          have ordinary := valid.not_isProxy_of_defaultOwners (reserved allowed) found owners
          cases ordinary.symm.trans isProxy
      · refine kept ?_
        rw [ClassRecord.method?_withCall, if_neg is_called]
        exact has

theorem Moves.stays_of_proxy (fair : setting.IsFair) (moves : Moves setting state next)
    (at_ : state.method? ⟨name, .publicInstance, method⟩ = some entry) :
    ∃ later, next.method? ⟨name, .publicInstance, method⟩ = some later ∧ entry.Stays later := by
  induction moves with
  | refl => exact ⟨entry, at_, .refl entry⟩
  | tail early move ih =>
    obtain ⟨middle, has, stays⟩ := ih
    cases move with
    | change change =>
      obtain ⟨later, has', stays'⟩ :=
        change.stays_of_proxy (Moves.valid fair early valid) reserved isProxy has
      exact ⟨later, has', stays.trans stays'⟩
    | take => exact ⟨middle, has, stays⟩

end

namespace State

/-- A reflective call is for the class itself. -/
theorem dispatch_of_reflective (reflective : (method.isProxy && state.allowForwarders) = true)
    (found : state.class? name = some cls) (cause : Cause) :
    (state.dispatch name method cause).1 = ⟨name, .publicInstance, method⟩ := by
  unfold dispatch resolveProxy
  simp only [if_pos reflective, found]
  split
  · rfl
  · split <;> rfl

/-- Where the class has a method by the name of the proxy, nothing is added. -/
theorem dispatch_of_entered (reflective : (method.isProxy && state.allowForwarders) = true)
    (at_ : state.method? ⟨name, .publicInstance, method⟩ = some entry) (cause : Cause) :
    state.dispatch name method cause = (⟨name, .publicInstance, method⟩, state) := by
  obtain ⟨cls, found, has⟩ := Option.bind_eq_some_iff.1 at_
  unfold dispatch resolveProxy
  simp only [if_pos reflective, found, has]

end State

/-! ### Runs -/

/-- Once a run has called a method on instances of a class, the target stays the same.

A method that is no proxy is resolved to the same target in every later state, whatever makes the
call, and nothing but the errors changes. A reflective call is always for the method that the class
itself has by that name, and once the run has made the call, that is the same proxy ever after. Here
no class declares a method by a name that is reserved for proxies. -/
theorem resolution_stable (rooted : loader.knows.IsRooted)
    (reserved : allow = true → loader.knows.ReservesProxies)
    (reached : Moves (loader.runs allow requirement) { allowForwarders := allow } state)
    (found : state.class? name = some cls) (method : MethodName) (cause : Cause) :
    ((method.isProxy && allow) = false →
      ∀ later, Moves (loader.runs allow requirement) (state.callResolved name method cause) later →
        ∀ other, ∃ errors, later.resolve name method other =
          ((state.resolve name method cause).1, later.extend [] errors)) ∧
    ((method.isProxy && allow) = true →
      (state.dispatch name method cause).1 = ⟨name, .publicInstance, method⟩ ∧
      (Moves (loader.runs allow requirement) state (state.callExact name method cause) →
        ∀ later, Moves (loader.runs allow requirement) (state.callExact name method cause) later →
          later.forwarder? ⟨name, .publicInstance, method⟩ =
            (state.callExact name method cause).forwarder? ⟨name, .publicInstance, method⟩ ∧
          ∀ other,
            later.dispatch name method other = (⟨name, .publicInstance, method⟩, later))) := by
  have fair : (loader.runs allow requirement).IsFair := Loader.isFair_settingFor rooted
  have valid := Moves.valid fair reached (State.valid_empty _)
  refine ⟨fun direct later moves other =>
    Moves.resolve_eq fair valid direct (fun _ => trivial) found moves other, ?_⟩
  intro reflective
  have reflective' : (method.isProxy && state.allowForwarders) = true := by
    rw [valid.allow]
    exact reflective
  refine ⟨State.dispatch_of_reflective reflective' found cause, fun called later moves => ?_⟩
  obtain ⟨isProxy, _⟩ := Bool.and_eq_true_iff.1 reflective
  obtain ⟨_, _, _, same⟩ := State.lands_reflective found reflective' cause
  have entered : (state.callExact name method cause).IsReached ⟨name, .publicInstance, method⟩ := by
    rw [same]
    exact State.isReached_revise_withCall
  obtain ⟨entry, at_, _⟩ := entered
  have valid' := Moves.valid fair called valid
  obtain ⟨entry', at_', stays⟩ := Moves.stays_of_proxy valid' reserved isProxy fair moves at_
  have reflective' : (method.isProxy && later.allowForwarders) = true := by
    rw [(Moves.valid fair moves valid').allow]
    exact reflective
  refine ⟨?_, State.dispatch_of_entered reflective' at_'⟩
  rw [State.forwarder?, at_', State.forwarder?, at_]
  exact stays.forwarder

/-- There are instances of both classes before the method is called on either. -/
def createBoth : Requirement :=
  .every [.instances "tests" ⟨"B"⟩ .defaultConstructor,
    .instances "tests" ⟨"A"⟩ .defaultConstructor]

/-- A bridge that is added above a class with a bridge of its own leaves the own one what is called,
and a proxy goes on calling the same method. -/
theorem resolution_stable_belowBridge :
    let setting := (Loader.ofDecls (belowBridge [⟨"J"⟩])).runs true createBoth
    let proxy : MethodId := ⟨⟨"A"⟩, .publicInstance, ⟨"foo__"⟩⟩
    ∃ state later last errors, Moves setting { allowForwarders := true } state ∧
      Moves setting (state.callResolved ⟨"A"⟩ ⟨"foo__V"⟩ .exports) later ∧
      later.forwarder? ⟨⟨"B"⟩, .publicInstance, ⟨"foo__V"⟩⟩ = some (.bridge ⟨"I"⟩) ∧
      later.resolve ⟨"A"⟩ ⟨"foo__V"⟩ .exports =
        (⟨⟨"A"⟩, .publicInstance, ⟨"foo__V"⟩⟩, later.extend [] errors) ∧
      Moves setting (state.callExact ⟨"A"⟩ ⟨"foo__"⟩ .exports) last ∧
      last.forwarder? proxy = some (.proxy ⟨"foo__V"⟩) ∧
      last.dispatch ⟨"A"⟩ ⟨"foo__"⟩ .exports = (proxy, last) := by
  intro setting proxy
  have known : (Loader.ofDecls (belowBridge [⟨"J"⟩])).knows .object = some plainRoot := by
    decide +kernel
  have rooted : (Loader.ofDecls (belowBridge [⟨"J"⟩])).knows.IsRooted := ⟨_, known, rfl⟩
  have reserved : (Loader.ofDecls (belowBridge [⟨"J"⟩])).knows.ReservesProxies :=
    Loader.reservesProxies_ofDecls (by decide +kernel)
  have told : ((State.start true plainRoot createBoth
      (Loader.ofDecls (belowBridge [⟨"J"⟩])).entryPoints).settle 40
        (Loader.ofDecls (belowBridge [⟨"J"⟩]))).1.toOption.map (fun state =>
      let called := state.callResolved ⟨"A"⟩ ⟨"foo__V"⟩ .exports
      let later := called.callResolved ⟨"B"⟩ ⟨"foo__V"⟩ .exports
      ((state.class? ⟨"A"⟩).map fun cls => cls.kind.isOrdinary,
        (called.class? ⟨"B"⟩).isSome, later.forwarder? ⟨⟨"B"⟩, .publicInstance, ⟨"foo__V"⟩⟩,
        (state.resolve ⟨"A"⟩ ⟨"foo__V"⟩ .exports).1,
        (state.callExact ⟨"A"⟩ ⟨"foo__"⟩ .exports).forwarder? proxy)) =
      some (some true, true, some (.bridge ⟨"I"⟩), ⟨⟨"A"⟩, .publicInstance, ⟨"foo__V"⟩⟩,
        some (.proxy ⟨"foo__V"⟩)) := by decide +kernel
  obtain ⟨state, after, ends, told⟩ := exists_of_toOption_map told
  simp only [Prod.mk.injEq] at told
  obtain ⟨lower, upper, bridged, target, proxied⟩ := told
  obtain ⟨cls, found, kind⟩ := Option.map_eq_some_iff.1 lower
  obtain ⟨record, found'⟩ := Option.isSome_iff_exists.1 upper
  have reached := State.reached_of_settle known rfl ends
  have fair : setting.IsFair := Loader.isFair_settingFor rooted
  have valid := Moves.valid fair reached (State.valid_empty _)
  have grants : ∀ name method, setting.Grants name method := fun _ _ _ _ _ => trivial
  have called := (State.calls_resolve fair valid (grants _ ⟨"foo__V"⟩) found .exports).1.changes
  have valid' := Changes.valid fair called valid
  have calledAbove :=
    (State.calls_resolve fair valid' (grants _ ⟨"foo__V"⟩) found' .exports).1.changes
  have exact_ := (State.calls_callExact fair valid (grants _ ⟨"foo__"⟩) found (fun _ => kind)
    .exports).1.changes
  obtain ⟨errors, resolves⟩ := (resolution_stable rooted (fun _ => reserved) reached found
    ⟨"foo__V"⟩ .exports).1 (by decide +kernel) _ calledAbove.moves .exports
  obtain ⟨_, again⟩ := ((resolution_stable rooted (fun _ => reserved) reached found
    ⟨"foo__"⟩ .exports).2 (by decide +kernel)).2 exact_.moves _ .refl
  exact ⟨state, _, _, errors, reached, calledAbove.moves, bridged,
    resolves.trans (congrArg (Prod.mk · _) target), .refl, proxied, again .exports⟩

end ClassLinker
