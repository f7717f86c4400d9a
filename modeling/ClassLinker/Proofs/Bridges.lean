import ClassLinker.Proofs.Growth

/-!
# What is known of bridges and proxies

A bridge is code of the class that it has been added to, so later calls that come up to the class
find it. Why it was added stays true all the while: `State.Fits` tells of a bridge that no class
from there upwards declares code for the method, that the bridge calls the first default method, and
that a conflict between default methods has been reported. A proxy calls a method that continues its
name and that some class from there upwards declares with code. `Change.bridged` is the step, and
`Moves.bridged` any number of them.
-/

namespace ClassLinker

variable {setting : Setting} {state next : State}
variable {name owner : ClassName} {cls record : ClassRecord} {method : MethodName}

/-! ### Declared and added code -/

/-- Where a class has declared code, or inherits it, there is still code. -/
theorem State.Valid.exists_implementor (valid : state.Valid setting) (fair : setting.IsFair)
    (found : state.class? name = some cls)
    (declared : Implementor setting.world.classes method name owner) :
    ∃ nearest, Implementor state.class? method name nearest := by
  induction declared generalizing cls with
  | here found' has =>
    obtain rfl := Option.some.inj (found'.symm.trans (valid.follows.classes_eq found))
    exact ⟨_, .here found ((valid.classes found).hasConcrete_of_fresh has)⟩
  | above found' _ extends_ _ ih =>
    obtain rfl := Option.some.inj (found'.symm.trans (valid.follows.classes_eq found))
    cases has : cls.hasConcrete method with
    | true => exact ⟨_, .here found has⟩
    | false =>
      have extends_ : cls.superClass = some _ := extends_
      obtain ⟨record, above⟩ :=
        valid.follows.ancestor found (valid.follows.superClass_mem fair.rooted found extends_)
      obtain ⟨nearest, up⟩ := ih above
      exact ⟨nearest, .above found has extends_ up⟩

/-- The nearest class with declared code, if there is one, lies at or above the nearest class with
any code, and below that one there is none. -/
theorem State.Valid.implementor_declared_iff (valid : state.Valid setting)
    (implementor : Implementor state.class? method name owner) (other : ClassName) :
    Implementor setting.world.classes method name other ↔
      Implementor setting.world.classes method owner other := by
  induction implementor with
  | here => exact .rfl
  | @above name owner cls parent found lacks extends_ _ ih =>
    have known := valid.follows.classes_eq found
    have lacks' : cls.fresh.hasConcrete method = false := by
      by_contra has
      rw [(valid.classes found).hasConcrete_of_fresh (by simpa using has)] at lacks
      cases lacks
    rw [← ih]
    constructor
    · rintro (⟨found', has⟩ | ⟨found', _, extends', up⟩) <;>
        obtain rfl := Option.some.inj (found'.symm.trans known)
      · rw [lacks'] at has; cases has
      · have extends' : cls.superClass = some _ := extends'
        obtain rfl := Option.some.inj (extends_.symm.trans extends')
        exact up
    · exact fun up => .above known lacks' extends_ up

/-! ### Added methods -/

namespace State

/-- What the analysis has added to a class as the method, if anything. -/
def forwarder? (state : State) (id : MethodId) : Option Forwarder :=
  (state.method? id).bind MethodRecord.forwarder

theorem forwarder?_eq_some {id : MethodId} {forwarder : Forwarder} :
    state.forwarder? id = some forwarder ↔ ∃ cls entry, state.class? id.owner = some cls ∧
      cls.method? id.key = some entry ∧ entry.forwarder = some forwarder := by
  simp only [forwarder?, method?, Option.bind_eq_some_iff]
  constructor
  · rintro ⟨entry, ⟨cls, found, has⟩, added⟩; exact ⟨cls, entry, found, has, added⟩
  · rintro ⟨cls, entry, found, has, added⟩; exact ⟨entry, ⟨cls, found, has⟩, added⟩

end State

/-- Code that has not been added is declared. -/
theorem State.Valid.declares_of_own (valid : state.Valid setting)
    (found : state.class? name = some cls) (has : cls.hasConcrete method = true)
    (own : state.forwarder? ⟨name, .publicInstance, method⟩ = none) :
    Implementor setting.world.classes method name name := by
  obtain ⟨entry, entered, concrete⟩ := (Option.any_eq_true ..).1 has
  have at_ : state.method? ⟨name, .publicInstance, method⟩ = some entry := by
    rw [State.method?, found]; exact entered
  rw [State.forwarder?, at_] at own
  refine .here (valid.follows.classes_eq found) ?_
  cases (valid.classes found).entries entered with
  | declared declares _ isPresent isAbstract =>
    have present := (ClassRecord.declared_shape declares).2.1
    rw [ClassRecord.hasConcrete, declares, Option.any_some]
    simpa [MethodRecord.isConcrete, isPresent, isAbstract, present] using concrete
  | missing _ _ absent =>
    rw [MethodRecord.isConcrete, absent] at concrete
    cases concrete
  | added _ _ _ _ _ _ _ _ _ forwarder =>
    have forwarder : (some entry).bind MethodRecord.forwarder = some _ := forwarder
    rw [own] at forwarder
    cases forwarder

/-! ### Targets of proxies -/

/-- Some class from the given one upwards declares code for the public method. -/
def Setting.Offers (setting : Setting) (name : ClassName) (method : MethodName) : Prop :=
  ∃ cls owner record, setting.world.classes name = some cls ∧ owner ∈ cls.ancestors ∧
    setting.world.classes owner = some record ∧ record.hasConcrete method = true

namespace State

/-- Every class of a super chain is an ancestor of the first one. -/
theorem mem_superChain {world : Universe} (follows : Follows world state.class?)
    (rooted : world.IsRooted) (found : state.class? name = some cls)
    (mem : record ∈ state.superChain name) :
    state.class? record.name = some record ∧ record.name ∈ cls.ancestors := by
  have above : ∀ steps {name cls}, state.class? name = some cls →
      record ∈ state.superChainUpTo steps name →
        state.class? record.name = some record ∧ record.name ∈ cls.ancestors := by
    intro steps
    induction steps with
    | zero => exact fun _ mem => by cases mem
    | succ steps ih =>
      intro name cls found mem
      simp only [superChainUpTo, found] at mem
      rcases List.mem_cons.1 mem with rfl | mem
      · rw [follows.name_eq found]
        exact ⟨found, follows.self_mem rooted found⟩
      · cases extends_ : cls.superClass with
        | none => simp [extends_] at mem
        | some parent =>
          simp only [extends_] at mem
          have upper := follows.superClass_mem rooted found extends_
          obtain ⟨parentRecord, linked⟩ := follows.ancestor found upper
          obtain ⟨at_, inside⟩ := ih linked mem
          exact ⟨at_, follows.ancestors_subset rooted found upper linked inside⟩
  exact above _ found mem

theorem mem_ancestorRecords {world : Universe} (follows : Follows world state.class?)
    (found : state.class? name = some cls) (mem : record ∈ state.ancestorRecords name) :
    state.class? record.name = some record ∧ record.name ∈ cls.ancestors := by
  simp only [ancestorRecords, found] at mem
  obtain ⟨owner, above, at_⟩ := List.mem_filterMap.1 mem
  rw [follows.name_eq at_]
  exact ⟨at_, above⟩

/-- The most specific of some methods is one of them. -/
theorem mem_of_mostSpecific? {candidates : List MethodName}
    (chosen : state.mostSpecific? candidates = some method) : method ∈ candidates := by
  unfold mostSpecific? at chosen
  rw [Option.orElse_eq_orElse, Option.orElse_eq_or] at chosen
  rcases Option.or_eq_some_iff.1 chosen with found | ⟨_, first⟩
  · exact List.mem_of_find?_eq_some found
  · exact List.mem_of_head? first

/-- What a proxy can call is own code of the class, by a name that continues that of the proxy. -/
theorem exists_of_mem_proxyMatches {proxy : MethodName} (mem : method ∈ proxyMatches cls proxy) :
    ∃ key entry, cls.method? key = some entry ∧ entry.id.key = ⟨.publicInstance, method⟩ ∧
      entry.isConcrete = true ∧ entry.forwarder = none ∧ method.matchesProxy proxy = true := by
  obtain ⟨entry, listed, rfl⟩ := List.mem_map.1 mem
  obtain ⟨listed, shape⟩ := List.mem_filter.1 listed
  simp only [Bool.and_eq_true, decide_eq_true_eq, Option.isNone_iff_eq_none] at shape
  obtain ⟨⟨⟨space, concrete⟩, own⟩, continues⟩ := shape
  obtain ⟨⟨key, entry⟩, entered, rfl⟩ := List.mem_map.1 listed
  refine ⟨key, entry, Std.ExtTreeMap.mem_toList_iff_getElem?_eq_some.1 entered, ?_, concrete, own,
    continues⟩
  exact congrArg (MethodKey.mk · entry.id.name) space

end State

/-- The target of a proxy is own code of a class from there upwards, and continues its name. -/
theorem State.Valid.exists_of_proxyTarget (valid : state.Valid setting) (fair : setting.IsFair)
    (found : state.class? name = some cls) {target : MethodName}
    (chosen : state.proxyTarget? name method = some target) :
    ∃ record entry, state.class? record.name = some record ∧ record.name ∈ cls.ancestors ∧
      record.method? ⟨.publicInstance, target⟩ = some entry ∧ entry.isConcrete = true ∧
        entry.forwarder = none ∧ target.matchesProxy method = true := by
  obtain ⟨record, mem, chosen⟩ := List.exists_of_findSome?_eq_some chosen
  obtain ⟨at_, above⟩ : state.class? record.name = some record ∧ record.name ∈ cls.ancestors :=
    (List.mem_append.1 mem).elim (mem_superChain valid.follows fair.rooted found)
      (mem_ancestorRecords valid.follows found)
  obtain ⟨key, entry, has, key_eq, concrete, own, continues⟩ :=
    exists_of_mem_proxyMatches (mem_of_mostSpecific? chosen)
  obtain rfl : key = ⟨.publicInstance, target⟩ := by
    rw [← key_eq, ((valid.classes at_).entries has).id_eq]
    rfl
  exact ⟨record, entry, at_, above, has, concrete, own, continues⟩

/-- So some class from there upwards declares code for it. -/
theorem State.Valid.offers_of_proxyTarget (valid : state.Valid setting) (fair : setting.IsFair)
    (found : state.class? name = some cls) {target : MethodName}
    (chosen : state.proxyTarget? name method = some target) :
    target.matchesProxy method = true ∧ setting.Offers name target := by
  obtain ⟨record, entry, at_, above, has, concrete, own, continues⟩ :=
    valid.exists_of_proxyTarget fair found chosen
  have owned : state.forwarder? ⟨record.name, .publicInstance, target⟩ = none := by
    have same : state.method? ⟨record.name, .publicInstance, target⟩ = some entry := by
      rw [State.method?, at_]
      exact has
    rw [State.forwarder?, same]
    exact own
  have code : record.hasConcrete target = true := by
    rw [ClassRecord.hasConcrete, has]
    exact concrete
  obtain ⟨declaring, known, has⟩ := (valid.declares_of_own at_ code owned).has_code
  exact ⟨continues, cls.fresh, record.name, declaring, valid.follows.classes_eq found, above, known,
    has⟩

/-! ### Why methods have been added -/

namespace State

/-- It has been reported that several interfaces offer a default method to the class. -/
def ReportsConflict (setting : Setting) (state : State) (name : ClassName) (method : MethodName) :
    Prop :=
  ∃ cause, .conflictingDefaults ((defaultOwnersIn setting.world.classes name method).map
    fun owner => ⟨owner, .publicInstance, method⟩) cause ∈ state.errors

/-- There is a reason to add the bridge or proxy to the class in what the classes declare. -/
def Fits (setting : Setting) (state : State) (name : ClassName) (method : MethodName) :
    Forwarder → Prop
  | .bridge interface =>
    (∀ owner, ¬ Implementor setting.world.classes method name owner) ∧
      (defaultOwnersIn setting.world.classes name method).head? = some interface ∧
        (2 ≤ (defaultOwnersIn setting.world.classes name method).length →
          state.ReportsConflict setting name method)
  | .proxy target =>
    method.isProxy = true ∧ target.matchesProxy method = true ∧ setting.Offers name target

/-- There is a reason for every method that has been added. -/
def Bridged (setting : Setting) (state : State) : Prop :=
  ∀ id forwarder, state.forwarder? id = some forwarder →
    state.Fits setting id.owner id.name forwarder

theorem Fits.mono {forwarder : Forwarder} (fits : state.Fits setting name method forwarder)
    (errors : state.errors ⊆ next.errors) : next.Fits setting name method forwarder := by
  cases forwarder with
  | bridge interface =>
    obtain ⟨lacks, first, reports⟩ := fits
    refine ⟨lacks, first, fun several => ?_⟩
    obtain ⟨cause, mem⟩ := reports several
    exact ⟨cause, errors mem⟩
  | proxy => exact fits

theorem mem_conflictErrors {owners : List ClassName} {cause : Cause} (several : 2 ≤ owners.length) :
    .conflictingDefaults (owners.map fun owner => ⟨owner, .publicInstance, method⟩) cause ∈
      conflictErrors method owners cause := by
  rw [conflictErrors, if_neg (by omega)]
  exact List.mem_singleton_self _

end State

/-- What is added by a call is added for a reason. -/
theorem Enters.fits {cause : Cause} {key : MethodKey} {entry : MethodRecord}
    {errors : List Diagnostic} {forwarder : Forwarder} (fair : setting.IsFair)
    (valid : state.Valid setting) (bridged : state.Bridged setting)
    (found : state.class? name = some cls)
    (enters : Enters setting state cls cause key entry errors)
    (added : entry.forwarder = some forwarder) (reported : errors ⊆ next.errors)
    (kept : state.errors ⊆ next.errors) : next.Fits setting name key.name forwarder := by
  cases enters with
  | found has =>
    let id : MethodId := ⟨name, key.space, key.name⟩
    have before : state.forwarder? id = some forwarder :=
      State.forwarder?_eq_some.2 ⟨cls, entry, found, has, added⟩
    exact (bridged id forwarder before).mono kept
  | missing => cases added
  | @bridge method first others _ _ lacks owners =>
    cases added
    rw [valid.follows.name_eq found] at lacks owners
    have owners := (valid.defaultOwners_eq found method).symm.trans owners
    refine ⟨fun owner declared => ?_, by rw [owners]; rfl, fun several => ⟨cause, ?_⟩⟩
    · obtain ⟨nearest, implementor⟩ := valid.exists_implementor fair found declared
      exact (State.superImplementor?_eq_none valid.follows fair.rooted found).1 lacks nearest
        implementor
    · rw [owners] at several ⊢
      exact reported (State.mem_conflictErrors several)
  | proxy _ isProxy _ _ chosen =>
    cases added
    rw [valid.follows.name_eq found] at chosen
    exact ⟨isProxy, valid.offers_of_proxyTarget fair found chosen⟩

/-- A step adds methods only for a reason. -/
theorem Change.bridged (fair : setting.IsFair) (valid : state.Valid setting)
    (bridged : state.Bridged setting) (change : Change setting state next) :
    next.Bridged setting := by
  intro id forwarder added
  have kept := change.grows.errors.subset
  obtain ⟨record, entry, found, has, is_added⟩ := State.forwarder?_eq_some.1 added
  have same : ∀ {cls}, state.class? id.owner = some cls → cls.method? id.key = some entry →
      next.Fits setting id.owner id.name forwarder := fun before has =>
    (bridged id forwarder (State.forwarder?_eq_some.2 ⟨_, entry, before, has, is_added⟩)).mono kept
  rcases change.class_cases found with before | ⟨_, new⟩ | ⟨cls, tasks, errors, at_, update, rfl⟩
  · exact same before has
  · rw [← new] at has
    rw [(ClassRecord.declared_shape has).2.2] at is_added
    cases is_added
  · cases update with
    | use | creator | instances | inhabit | note => exact same at_ has
    | @call cause called method _ enters =>
      rw [ClassRecord.method?_withCall] at has
      split at has
      · rename_i same
        subst same
        cases has
        exact enters.fits fair valid bridged at_ is_added (List.subset_append_right ..) kept
      · exact same at_ has

/-- Nothing has been added in the beginning. -/
theorem State.bridged_empty (setting : Setting) :
    State.Bridged setting { allowForwarders := setting.allow } := by
  intro id forwarder added
  obtain ⟨cls, _, found, _⟩ := State.forwarder?_eq_some.1 added
  rw [State.class?_blank] at found
  cases found

/-- In every state that a run can come to, there is a reason for every method that has been
added. -/
theorem Moves.bridged (fair : setting.IsFair) (valid : state.Valid setting)
    (bridged : state.Bridged setting) (moves : Moves setting state next) :
    next.Bridged setting := by
  induction moves with
  | refl => exact bridged
  | tail early move ih =>
    cases move with
    | change change => exact change.bridged fair (Moves.valid fair early valid) ih
    | take => exact fun id forwarder added => ih id forwarder added

theorem State.bridged_of_reached (fair : setting.IsFair)
    (reached : Moves setting { allowForwarders := setting.allow } state) :
    state.Bridged setting :=
  Moves.bridged fair (State.valid_empty setting) (State.bridged_empty setting) reached

/-- Code that has been found is declared, or a bridge that has been added for a reason. -/
theorem State.Bridged.declared_or_fits (bridged : state.Bridged setting)
    (valid : state.Valid setting) (direct : method.isProxy = false)
    (implementor : Implementor state.class? method name owner) :
    Implementor setting.world.classes method owner owner ∨
      ∃ interface, state.Fits setting owner method (.bridge interface) := by
  obtain ⟨record, found, has⟩ := implementor.has_code
  cases added : state.forwarder? ⟨owner, .publicInstance, method⟩ with
  | none => exact .inl (valid.declares_of_own found has added)
  | some forwarder =>
    have fits := bridged _ _ added
    cases forwarder with
    | bridge interface => exact .inr ⟨interface, fits⟩
    | proxy =>
      have isProxy : method.isProxy = true := fits.1
      rw [direct] at isProxy
      cases isProxy

end ClassLinker
