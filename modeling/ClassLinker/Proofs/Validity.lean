import ClassLinker.Proofs.Change

/-!
# What every step of an analysis preserves

`State.Valid setting state` says that the state fits the universe and the facts of a setting:

* classes are linked as the universe tells, and only classes that cannot be linked have failed, not
  without an error;
* every method of a class is of one of the forms of `Entry`: declared, absent, or added. Interfaces
  get no code, and without bridges and proxies no class does (`ClassRecord.Valid.hasConcrete_eq`);
* whatever the state says is used, called or reachable is among the facts, and so is whatever the
  tasks ask for.

`Change.valid` is the step and `Changes.valid` any number of them.
-/

namespace ClassLinker

variable {setting : Setting} {state next : State}
variable {name other : ClassName} {cls record : ClassRecord}
variable {key : MethodKey} {entry declared : MethodRecord}

/-! ### Declared methods -/

/-- The methods declared by a summary are those that it lists. -/
theorem exists_of_getElem?_declaredMethods {summary : ClassSummary}
    (found : (ClassRecord.declaredMethods name summary)[key]? = some declared) :
    ∃ method ∈ summary.methods,
      key = ⟨method.space, method.name⟩ ∧ declared = .ofSummary name method := by
  have grown : ∀ (methods : List MethodSummary) (start : Std.ExtTreeMap MethodKey MethodRecord),
      (methods.foldl (fun methods method =>
        methods.insert ⟨method.space, method.name⟩ (MethodRecord.ofSummary name method))
          start)[key]? = some declared →
      start[key]? = some declared ∨
        ∃ method ∈ methods, key = ⟨method.space, method.name⟩ ∧
          declared = .ofSummary name method := by
    intro methods
    induction methods with
    | nil => exact fun _ h => .inl h
    | cons first rest ih =>
      intro start h
      rcases ih _ h with h | ⟨method, mem, h⟩
      · rw [Std.ExtTreeMap.getElem?_insert] at h
        split at h
        · rename_i same
          refine .inr ⟨first, List.mem_cons_self, ?_, (Option.some.inj h).symm⟩
          exact (Std.LawfulEqOrd.compare_eq_iff_eq.1 same).symm
        · exact .inl h
      · exact .inr ⟨method, List.mem_cons_of_mem _ mem, h⟩
  rcases grown summary.methods ∅ found with h | h
  · rw [Std.ExtTreeMap.getElem?_empty] at h; cases h
  · exact h

/-- Every method that a summary lists is declared. -/
theorem isSome_getElem?_declaredMethods {summary : ClassSummary} {method : MethodSummary}
    (mem : method ∈ summary.methods) :
    (ClassRecord.declaredMethods name summary)[(⟨method.space, method.name⟩ : MethodKey)]?.isSome =
      true := by
  have grown : ∀ (methods : List MethodSummary) (start : Std.ExtTreeMap MethodKey MethodRecord),
      method ∈ methods ∨ start[(⟨method.space, method.name⟩ : MethodKey)]?.isSome = true →
      (methods.foldl (fun methods method =>
        methods.insert ⟨method.space, method.name⟩ (MethodRecord.ofSummary name method))
          start)[(⟨method.space, method.name⟩ : MethodKey)]?.isSome = true := by
    intro methods
    induction methods with
    | nil => exact fun _ h => h.resolve_left (by rintro ⟨⟩)
    | cons first rest ih =>
      intro start h
      refine ih _ ?_
      rw [List.mem_cons, or_assoc] at h
      rw [Std.ExtTreeMap.getElem?_insert]
      rcases h with rfl | later | before
      · exact .inr (by simp)
      · exact .inl later
      · refine .inr ?_
        split
        · rfl
        · exact before
  exact grown summary.methods ∅ (.inl mem)

/-- A method that a class has when it is linked is one that its summary lists. -/
theorem ClassRecord.exists_declared (declares : cls.fresh.method? key = some declared) :
    ∃ summary, cls.summary = some summary ∧ ∃ method ∈ summary.methods,
      key = ⟨method.space, method.name⟩ ∧ declared = .ofSummary cls.name method := by
  unfold ClassRecord.method? ClassRecord.fresh at declares
  cases known : cls.summary with
  | none => simp [known] at declares
  | some summary =>
    simp only [known, Option.map_some, Option.getD_some] at declares
    exact ⟨summary, rfl, exists_of_getElem?_declaredMethods declares⟩

/-- A class has every method that its summary lists when it is linked. -/
theorem ClassRecord.isSome_declared {summary : ClassSummary} {method : MethodSummary}
    (known : cls.summary = some summary) (mem : method ∈ summary.methods) :
    (cls.fresh.method? ⟨method.space, method.name⟩).isSome = true := by
  simp only [method?, fresh, known, Option.map_some, Option.getD_some]
  exact isSome_getElem?_declaredMethods mem

theorem ClassRecord.declared_shape (declares : cls.fresh.method? key = some declared) :
    declared.id = cls.idOf key ∧ declared.isPresent = true ∧ declared.forwarder = none := by
  obtain ⟨_, _, method, _, rfl, rfl⟩ := exists_declared declares
  exact ⟨rfl, rfl, rfl⟩

/-- Nothing has called it. -/
theorem ClassRecord.uncalled_of_declared (declares : cls.fresh.method? key = some declared) :
    declared.isReached = false ∧ declared.callers = [] := by
  obtain ⟨_, _, method, _, rfl, rfl⟩ := exists_declared declares
  exact ⟨rfl, rfl⟩

/-- A class that has just been linked has no instances, no calls and no reachable methods. -/
theorem ClassRecord.silent_of_fresh (fresh_eq : cls.fresh = cls) :
    cls.hasInstances = false ∧ cls.calls = [] ∧ cls.uses = {} ∧
      ∀ {key entry}, cls.method? key = some entry → entry.isReached = false := by
  rw [← fresh_eq]
  exact ⟨rfl, rfl, rfl, fun declares => (uncalled_of_declared declares).1⟩

/-! ### Entries -/

/-- The forms of the methods of a class that has been linked like this: declared methods, absent
ones that are called all the same, and those that are added, which stand in place of nothing or of
an abstract method. -/
inductive Entry (setting : Setting) (cls : ClassRecord) (key : MethodKey) (entry : MethodRecord) :
    Prop
  | declared {declared : MethodRecord} (declares : cls.method? key = some declared)
      (id : entry.id = cls.idOf key) (isPresent : entry.isPresent = true)
      (isAbstract : entry.isAbstract = declared.isAbstract) (forwarder : entry.forwarder = none)
  | missing (lacks : cls.method? key = none) (id : entry.id = cls.idOf key)
      (isPresent : entry.isPresent = false) (forwarder : entry.forwarder = none)
      (isReached : entry.isReached = true)
  | added {added : Forwarder} (allowed : setting.allow = true) (space : key.space = .publicInstance)
      (present : cls.isPresent = true) (kind : cls.kind ≠ .interface)
      (proxied : ∀ target, added = .proxy target → cls.kind.isOrdinary = true)
      (replaces : ∀ declared, cls.method? key = some declared → declared.isConcrete = false)
      (id : entry.id = cls.idOf key) (isPresent : entry.isPresent = true)
      (isAbstract : entry.isAbstract = false) (forwarder : entry.forwarder = some added)
      (isReached : entry.isReached = true)

namespace Entry

theorem id_eq (form : Entry setting cls key entry) : entry.id = cls.idOf key := by
  cases form <;> assumption

theorem calledBy (form : Entry setting cls key entry) (cause : Cause) :
    Entry setting cls key (entry.calledBy cause) := by
  cases form with
  | declared declares id isPresent isAbstract forwarder =>
    exact .declared declares id isPresent isAbstract forwarder
  | missing lacks id isPresent forwarder _ => exact .missing lacks id isPresent forwarder rfl
  | added allowed space present kind proxied replaces id isPresent isAbstract forwarder _ =>
    exact .added allowed space present kind proxied replaces id isPresent isAbstract forwarder rfl

/-- Where no code can be added, the concrete methods are the declared ones. -/
theorem isConcrete_eq (form : Entry setting cls.fresh key entry)
    (bare : setting.allow = false ∨ cls.kind = .interface) :
    entry.isConcrete = (cls.fresh.method? key).any MethodRecord.isConcrete := by
  cases form with
  | declared declares _ isPresent isAbstract _ =>
    have present := (ClassRecord.declared_shape declares).2.1
    simp [MethodRecord.isConcrete, declares, isPresent, isAbstract, present]
  | missing lacks _ isPresent _ _ =>
    simp [MethodRecord.isConcrete, lacks, isPresent]
  | added allowed _ _ kind =>
    rcases bare with bare | bare
    · rw [allowed] at bare; cases bare
    · exact absurd bare kind

end Entry

/-! ### Valid classes -/

/-- The class has methods of the allowed forms, and what it says is among the facts. -/
structure ClassRecord.Valid (setting : Setting) (cls : ClassRecord) : Prop where
  entries : ∀ {key entry}, cls.method? key = some entry → Entry setting cls.fresh key entry
  declared : ∀ {key declared}, cls.fresh.method? key = some declared →
    ∃ entry, cls.method? key = some entry
  used : ∀ {use}, cls.uses.contains use = true →
    cls.isPresent = true ∧ setting.facts (.used cls.name use)
  inhabited : cls.hasInstances = true → setting.facts (.inhabited cls.name)
  calls : ∀ {call}, call ∈ cls.calls →
    cls.isPresent = true ∧ cls.kind.isJS = false ∧ setting.facts (.asked cls.name (.call call.1))
  reached : setting.allow = false → ∀ {key entry}, cls.method? key = some entry →
    entry.isReached = true → entry.isConcrete = true → setting.facts (.reached (cls.idOf key))

namespace ClassRecord

/-- A class that has just been linked says nothing yet. -/
theorem Valid.of_links (links : setting.world.Links name cls) : cls.Valid setting := by
  have fresh_eq := links.fresh_eq
  obtain ⟨hasInstances, calls, uses, unreached⟩ := silent_of_fresh fresh_eq
  refine ⟨fun {key entry} found => ?_, fun {key declared} declares => ?_, fun {use} h => ?_,
    fun h => ?_, fun {call} h => ?_, fun _ {key entry} found h => ?_⟩
  · have declares : cls.fresh.method? key = some entry := fresh_eq ▸ found
    have shape := declared_shape declares
    exact .declared declares shape.1 shape.2.1 rfl shape.2.2
  · exact ⟨declared, fresh_eq ▸ declares⟩
  · rw [uses] at h; cases use <;> cases h
  · rw [hasInstances] at h; cases h
  · rw [calls] at h; cases h
  · rw [unreached found] at h; cases h

/-- Where no code can be added, the class has code for what it declares. -/
theorem Valid.hasConcrete_eq (valid : cls.Valid setting)
    (bare : setting.allow = false ∨ cls.kind = .interface) (method : MethodName) :
    cls.hasConcrete method = cls.fresh.hasConcrete method := by
  unfold hasConcrete
  cases found : cls.method? ⟨.publicInstance, method⟩ with
  | some entry => exact (valid.entries found).isConcrete_eq bare
  | none =>
    cases declares : cls.fresh.method? ⟨.publicInstance, method⟩ with
    | none => rfl
    | some declared =>
      obtain ⟨entry, found'⟩ := valid.declared declares
      rw [found] at found'; cases found'

theorem Valid.created (valid : cls.Valid setting) (uses : cls.uses.instances = true) :
    setting.facts (.used cls.name .instances) := by
  have h : cls.uses.contains .instances = true := uses
  exact (valid.used h).2

/-- Only classes that exist have code. -/
theorem Valid.isPresent_of_concrete (valid : cls.Valid setting)
    (has : cls.method? key = some entry) (concrete : entry.isConcrete = true) :
    cls.isPresent = true := by
  cases valid.entries has with
  | declared declares =>
    cases known : cls.summary with
    | none => simp [ClassRecord.method?, ClassRecord.fresh, known] at declares
    | some summary => rw [isPresent, known]; rfl
  | missing _ _ isPresent =>
    rw [MethodRecord.isConcrete, isPresent] at concrete
    cases concrete
  | added _ _ present => exact present

/-- A method that is listed exists. -/
theorem Valid.isPresent_of_listed (valid : cls.Valid setting) {summary : ClassSummary}
    {method : MethodSummary} (known : cls.summary = some summary) (mem : method ∈ summary.methods)
    (has : cls.method? ⟨method.space, method.name⟩ = some entry) : entry.isPresent = true := by
  cases valid.entries has with
  | declared _ _ isPresent | added _ _ _ _ _ _ _ isPresent => exact isPresent
  | missing lacks =>
    have isSome := isSome_declared known mem
    rw [lacks] at isSome
    cases isSome

theorem Valid.isPresent_of_hasConcrete (valid : cls.Valid setting) {method : MethodName}
    (has : cls.hasConcrete method = true) : cls.isPresent = true := by
  obtain ⟨entry, entered, concrete⟩ := (Option.any_eq_true ..).1 has
  exact valid.isPresent_of_concrete entered concrete

/-- A class has code for every method that it declares with code. -/
theorem Valid.hasConcrete_of_fresh (valid : cls.Valid setting) {method : MethodName}
    (has : cls.fresh.hasConcrete method = true) : cls.hasConcrete method = true := by
  unfold hasConcrete at has ⊢
  obtain ⟨declared, declares, concrete⟩ := (Option.any_eq_true ..).1 has
  obtain ⟨entry, found⟩ := valid.declared declares
  rw [found, Option.any_some]
  cases valid.entries found with
  | declared declares' _ isPresent isAbstract _ =>
    obtain rfl := Option.some.inj (declares.symm.trans declares')
    have present := (declared_shape declares).2.1
    simpa [MethodRecord.isConcrete, isPresent, isAbstract, present] using concrete
  | missing lacks => rw [lacks] at declares; cases declares
  | added _ _ _ _ _ replaces => rw [replaces _ declares] at concrete; cases concrete

@[simp] theorem method?_withCall (cls : ClassRecord) (key other : MethodKey)
    (entry : MethodRecord) (cause : Cause) :
    (cls.withCall key entry cause).method? other =
      if key = other then some (entry.calledBy cause) else cls.method? other := by
  simp [method?, withCall, Std.ExtTreeMap.getElem?_insert]

end ClassRecord

/-! ### Updates of a class -/

theorem Demands.mem_tasks {demands : Demands} {cause : Cause} {task : Task} :
    task ∈ demands.tasks cause ↔ ∃ demand, (task.cls, demand) ∈ demands.toList ∧
      task = { cls := task.cls, action := .fulfil demand, cause } := by
  simp only [Demands.tasks, List.mem_map]
  constructor
  · rintro ⟨⟨owner, demand⟩, mem, rfl⟩; exact ⟨demand, mem, rfl⟩
  · rintro ⟨demand, mem, h⟩; exact ⟨_, mem, h.symm⟩

/-- An update leaves the class linked as it was, and takes nothing away from its uses. -/
theorem Update.fresh_eq {tasks : List Task} {errors : List Diagnostic}
    (update : Update setting state cls record tasks errors) :
    record.fresh = cls.fresh ∧ (cls.uses.instances = true → record.uses.instances = true) := by
  cases update with
  | @use use => exact ⟨rfl, fun h => by cases use <;> first | exact h | rfl⟩
  | creator | instances | inhabit | note | call => exact ⟨rfl, id⟩

/-! ### Valid states -/

/-- The state fits the universe and the facts. -/
structure State.Valid (setting : Setting) (state : State) : Prop where
  allow : state.allowForwarders = setting.allow
  follows : Follows setting.world state.class?
  loaded : ∀ {name summary parked}, state.status? name = some (.loaded summary parked) →
    summary = setting.world name
  failed : ∀ {name}, state.status? name = some .failed → ∀ cls, ¬ setting.world.Links name cls
  classes : ∀ {name cls}, state.class? name = some cls → cls.Valid setting
  residents : ∀ {name cls other}, state.class? name = some cls → other ∈ cls.inhabited →
    ∃ record, state.class? other = some record ∧ record.kind.isOrdinary = true ∧
      record.uses.instances = true ∧ name ∈ record.ancestors
  work : ∀ {task}, task ∈ state.work → setting.Justifies task
  parked : ∀ {name status task}, state.status? name = some status → task ∈ status.parked →
    setting.Justifies task
  reported : ∀ {name}, state.status? name = some .failed → state.errors ≠ []

theorem State.valid_empty (setting : Setting) :
    State.Valid setting { allowForwarders := setting.allow } := by
  refine ⟨rfl, ⟨fun found => ?_, fun found => ?_⟩, fun found => ?_, fun found => ?_,
    fun found => ?_, fun found => ?_, fun mem => (by cases mem), fun found => ?_, fun found => ?_⟩
  all_goals first
    | rw [State.status?_blank] at found; cases found
    | rw [State.class?_blank] at found; cases found

namespace State.Valid

/-- Interfaces keep the code that they declare. -/
theorem defaultOwners_eq (valid : state.Valid setting) (found : state.class? name = some cls)
    (method : MethodName) :
    state.defaultOwners name method = defaultOwnersIn setting.world.classes name method := by
  rw [state.defaultOwners_eq]
  exact defaultOwnersIn_eq_declared valid.follows found fun _ _ found kind =>
    (valid.classes found).hasConcrete_eq (.inr kind) method

/-- A bridge or proxy stands in place of no code. -/
theorem not_concrete_of_lacks (valid : state.Valid setting) (fair : setting.IsFair)
    (found : state.class? name = some cls) {method : MethodName}
    (lacks : state.superImplementor? name method = none) : cls.hasConcrete method = false := by
  by_contra has
  have implementor : Implementor state.class? method name name :=
    .here found (by simpa using has)
  exact (State.superImplementor?_eq_none valid.follows fair.rooted found).1 lacks _ implementor

/-- Only classes that exist inherit default methods. -/
theorem isPresent_of_defaultOwners (valid : state.Valid setting)
    (found : state.class? name = some cls) {method : MethodName} {first : ClassName}
    {others : List ClassName} (owners : state.defaultOwners name method = first :: others) :
    cls.isPresent = true := by
  by_contra missing
  obtain ⟨kind, _, alone⟩ := (valid.follows.links found).alone (Bool.eq_false_iff.2 missing)
  obtain ⟨mem, record, found', interface, _⟩ := exists_of_defaultOwners valid.follows found owners
  have alone : cls.ancestors = [name] := alone
  rw [alone, List.mem_singleton] at mem
  rw [mem, found] at found'
  obtain rfl := Option.some.inj found'
  have kind : cls.kind = .plain := kind
  rw [kind] at interface
  cases interface

/-- Only classes that exist have methods that a proxy can call. -/
theorem isPresent_of_proxyTarget (valid : state.Valid setting)
    (found : state.class? name = some cls) {proxy target : MethodName}
    (chosen : state.proxyTarget? name proxy = some target) : cls.isPresent = true := by
  by_contra missing
  obtain ⟨_, alone, above⟩ := (valid.follows.links found).alone (Bool.eq_false_iff.2 missing)
  have alone : cls.superClass = none := alone
  have above : cls.ancestors = [name] := above
  have same : ∀ record ∈ state.superChain name ++ state.ancestorRecords name, record = cls := by
    intro record mem
    rcases List.mem_append.1 mem with mem | mem
    · unfold State.superChain at mem
      cases size : state.table.size with
      | zero => simp [size, State.superChainUpTo] at mem
      | succ steps => simpa [size, State.superChainUpTo, found, alone] using mem
    · simpa [State.ancestorRecords, found, above] using mem
  obtain ⟨record, mem, chosen⟩ := List.exists_of_findSome?_eq_some chosen
  obtain rfl := same record mem
  have none_match : State.proxyMatches record proxy = [] := by
    refine List.map_eq_nil_iff.2 (List.filter_eq_nil_iff.2 fun method mem => ?_)
    obtain ⟨⟨key, entry⟩, listed, rfl⟩ := List.mem_map.1 mem
    have has : record.method? key = some entry :=
      Std.ExtTreeMap.mem_toList_iff_getElem?_eq_some.1 listed
    have vague : entry.isConcrete = false := Bool.eq_false_iff.2 fun concrete =>
      missing ((valid.classes found).isPresent_of_concrete has concrete)
    simp [vague]
  rw [none_match] at chosen
  cases chosen

end State.Valid

/-! ### Steps -/

/-- What a call finds or makes in a class is of one of the allowed forms. -/
theorem Enters.form {cause : Cause} {errors : List Diagnostic} (fair : setting.IsFair)
    (valid : state.Valid setting) (found : state.class? name = some cls)
    (enters : Enters setting state cls cause key entry errors) :
    Entry setting cls.fresh key (entry.calledBy cause) := by
  have classValid := valid.classes found
  have declared_none : ∀ {key}, cls.method? key = none → cls.fresh.method? key = none := by
    intro key lacks
    by_contra declares
    obtain ⟨declared, declares⟩ := Option.ne_none_iff_exists'.1 declares
    obtain ⟨entry, found⟩ := classValid.declared declares
    rw [lacks] at found; cases found
  cases enters with
  | found has => exact (classValid.entries has).calledBy cause
  | missing lacks => exact .missing (declared_none lacks) rfl rfl rfl rfl
  | @bridge method first others allowed kind lacks owners =>
    rw [valid.follows.name_eq found] at lacks owners
    have present : cls.isPresent = true := valid.isPresent_of_defaultOwners found owners
    -- No declared code is replaced, for resolution has not found any.
    refine .added allowed rfl present kind (fun _ h => by cases h) (fun declared declares => ?_)
      rfl rfl rfl rfl rfl
    by_contra concrete
    have has : cls.fresh.hasConcrete method = true := by
      unfold ClassRecord.hasConcrete
      rw [declares]
      simpa using concrete
    have lacks := valid.not_concrete_of_lacks fair found lacks
    rw [classValid.hasConcrete_of_fresh has] at lacks
    cases lacks
  | proxy allowed _ kind lacks chosen =>
    rw [valid.follows.name_eq found] at chosen
    have present : cls.isPresent = true := valid.isPresent_of_proxyTarget found chosen
    refine .added allowed rfl present ?_ (fun _ _ => kind) (fun declared declares => ?_)
      rfl rfl rfl rfl rfl
    · intro h
      have kind : cls.fresh.kind.isOrdinary = true := kind
      rw [h] at kind; cases kind
    · rw [declared_none lacks] at declares; cases declares

/-- Every task of a method that has not been called before is justified by its first call. -/
theorem Enters.justifies {cause : Cause} {errors : List Diagnostic} (fair : setting.IsFair)
    (valid : state.Valid setting) (found : state.class? name = some cls)
    (enters : Enters setting state cls cause key entry errors) {task : Task}
    (mem : task ∈ cls.callTasks entry) : setting.Justifies task := by
  obtain rfl := valid.follows.name_eq found
  unfold ClassRecord.callTasks at mem
  split at mem
  · cases mem
  rename_i unreached
  cases enters with
  | found has fact =>
    cases (valid.classes found).entries has with
    | @declared declared declares id isPresent isAbstract forwarder =>
      simp only [State.methodTasks, forwarder, isPresent, if_true] at mem
      split at mem
      · rename_i method declares'
        obtain ⟨demand, demands, same⟩ := Demands.mem_tasks.1 mem
        obtain ⟨summary, known, lists⟩ := Option.bind_eq_some_iff.1 declares'
        rw [same]
        show setting.facts _
        rcases fair.full with full | ⟨bare, coherent⟩
        · exact full _
        rw [id] at lists
        have isConcrete : entry.isConcrete = true := by
          by_contra h
          have isAbstract' : declared.isAbstract = true := by
            simpa [MethodRecord.isConcrete, isPresent, isAbstract] using h
          -- An abstract method may be called without being among the facts, but demands nothing.
          have demandless := coherent (valid.follows.summary_eq found ▸ known)
            (by simpa [ClassRecord.method?, ClassRecord.fresh, known] using declares) lists
            isAbstract'
          rw [demandless] at demands
          cases demands
        exact fair.closed _ (.body (fact bare isConcrete) (valid.follows.classes_eq found) known
          lists demands)
      · cases mem
    | missing _ _ _ _ isReached => exact absurd isReached unreached
    | added _ _ _ _ _ _ _ _ _ _ isReached => exact absurd isReached unreached
  | missing _ => cases mem
  | bridge allowed _ _ _ =>
    obtain rfl := List.mem_singleton.1 mem
    rcases fair.full with full | ⟨bare, _⟩
    · exact full _
    · rw [allowed] at bare; cases bare
  | proxy allowed _ kind _ _ =>
    obtain rfl := List.mem_singleton.1 mem
    refine ⟨allowed, fun linked links => ?_⟩
    rw [links.unique (valid.follows.links found)]
    exact kind

/-- An update keeps a class valid. -/
theorem Update.valid {tasks : List Task} {errors : List Diagnostic} (fair : setting.IsFair)
    (valid : state.Valid setting) (found : state.class? name = some cls)
    (update : Update setting state cls record tasks errors) : record.Valid setting := by
  have before := valid.classes found
  cases update with
  | @use use present fact =>
    refine { before with used := fun {other} h => ?_ }
    rw [ClassRecord.addUse, Uses.contains_insert, Bool.or_eq_true, decide_eq_true_eq] at h
    rcases h with rfl | h
    · exact ⟨present, fact⟩
    · exact before.used h
  | creator => exact { before with }
  | instances fact => exact { before with inhabited := fun _ => fact }
  | inhabit => exact { before with }
  | note present notJS fact =>
    refine { before with calls := fun {call} mem => ?_ }
    rcases List.mem_append.1 mem with mem | mem
    · exact before.calls mem
    · obtain rfl := List.mem_singleton.1 mem
      exact ⟨present, notJS, fact⟩
  | @call cause key entry errors enters =>
    refine { before with
      entries := fun {other method} h => ?_
      declared := fun {other method} h => ?_
      reached := fun bare {other method} h => ?_ }
    · rw [ClassRecord.method?_withCall] at h
      split at h
      · rename_i same
        subst same
        cases h
        have form := enters.form fair valid found
        exact form
      · exact before.entries h
    · rw [ClassRecord.method?_withCall]
      split
      · exact ⟨_, rfl⟩
      · exact before.declared h
    · rw [ClassRecord.method?_withCall] at h
      split at h
      · rename_i same
        subst same
        cases h
        intro _ concrete
        cases enters with
        | found _ fact => exact fact bare concrete
        | missing _ => cases concrete
        | bridge allowed _ _ _ => rw [bare] at allowed; cases allowed
        | proxy allowed _ _ _ _ => rw [bare] at allowed; cases allowed
      · exact before.reached bare h

/-- The tasks that an update gives rise to are justified. -/
theorem Update.justifies {tasks : List Task} {errors : List Diagnostic} (fair : setting.IsFair)
    (valid : state.Valid setting) (found : state.class? name = some cls)
    (update : Update setting state cls record tasks errors) {task : Task} (mem : task ∈ tasks) :
    setting.Justifies task := by
  cases update with
  | use | creator | inhabit | note => cases mem
  | instances _ justified => exact justified task mem
  | call enters => exact enters.justifies fair valid found mem

/-- The residents of a class are ordinary classes below it that instances are created of. -/
theorem Update.residents {tasks : List Task} {errors : List Diagnostic}
    (valid : state.Valid setting) (found : state.class? name = some cls)
    (update : Update setting state cls record tasks errors) (mem : other ∈ record.inhabited) :
    ∃ resident, state.class? other = some resident ∧ resident.kind.isOrdinary = true ∧
      resident.uses.instances = true ∧ name ∈ resident.ancestors := by
  cases update with
  | use | creator | instances | note | call => exact valid.residents found mem
  | inhabit found' kind created below =>
    rcases List.mem_append.1 mem with mem | mem
    · exact valid.residents found mem
    · obtain rfl := List.mem_singleton.1 mem
      exact ⟨_, found', kind, created, valid.follows.name_eq found ▸ below⟩

/-- Replacing classes by others that are linked in the same way keeps the ancestors linked. -/
theorem Follows.replace {world : Universe} {classes others : Lookup}
    (follows : Follows world classes)
    (kept : ∀ name cls, classes name = some cls →
      ∃ record, others name = some record ∧ record.fresh = cls.fresh)
    (old : ∀ name record, others name = some record →
      (∃ cls, classes name = some cls ∧ record.fresh = cls.fresh) ∨
        world.Links name record.fresh ∧
          ∀ other ∈ record.ancestors, ∃ above, others other = some above) :
    Follows world others where
  links found := by
    rcases old _ _ found with ⟨cls, found', same⟩ | ⟨links, _⟩
    · rw [same]; exact follows.links found'
    · exact links
  ancestor {name record other} found mem := by
    rcases old _ _ found with ⟨cls, found', same⟩ | ⟨_, above⟩
    · have mem' : other ∈ cls.fresh.ancestors := same ▸ mem
      obtain ⟨linked, found''⟩ := follows.ancestor found' mem'
      obtain ⟨above, h, _⟩ := kept _ _ found''
      exact ⟨above, h⟩
    · exact above other mem

/-- A class with another status has had it before a class was changed or linked. -/
theorem State.status?_of_revise {tasks : List Task} {errors : List Diagnostic} {status : Status}
    (after : (state.revise name record tasks errors).status? other = some status)
    (unlinked : status.record? = none) : state.status? other = some status := by
  rw [State.status?_revise] at after
  split at after
  · cases after; cases unlinked
  · exact after

/-- A class that is changed or linked leaves the state valid if it is valid itself and fits the
others. -/
theorem State.Valid.of_revise {tasks : List Task} {errors : List Diagnostic}
    (valid : state.Valid setting) (recordValid : record.Valid setting)
    (justified : ∀ task ∈ tasks, setting.Justifies task)
    (follows : Follows setting.world (state.revise name record tasks errors).class?)
    (residents : ∀ {upper cls other},
      (state.revise name record tasks errors).class? upper = some cls →
      other ∈ cls.inhabited → ∃ resident,
        (state.revise name record tasks errors).class? other = some resident ∧
          resident.kind.isOrdinary = true ∧ resident.uses.instances = true ∧
            upper ∈ resident.ancestors) :
    (state.revise name record tasks errors).Valid setting where
  allow := valid.allow
  follows := follows
  loaded h := valid.loaded (State.status?_of_revise h rfl)
  failed h := valid.failed (State.status?_of_revise h rfl)
  classes {other linked} h := by
    rw [State.class?_revise] at h
    split at h
    · cases h; exact recordValid
    · exact valid.classes h
  residents := residents
  work mem := (List.mem_append.1 mem).elim valid.work (justified _)
  parked {other status task} h mem := by
    rw [State.status?_revise] at h
    split at h
    · cases h; cases mem
    · exact valid.parked h mem
  reported h := List.append_ne_nil_of_left_ne_nil
    (valid.reported (State.status?_of_revise h rfl)) _

/-- A class that is changed but stays linked as it was leaves the state valid. -/
theorem State.Valid.revise {tasks : List Task} {errors : List Diagnostic}
    (valid : state.Valid setting) (found : state.class? name = some cls)
    (fresh_eq : record.fresh = cls.fresh)
    (created : cls.uses.instances = true → record.uses.instances = true)
    (recordValid : record.Valid setting)
    (residents : ∀ other ∈ record.inhabited,
      ∃ resident, state.class? other = some resident ∧ resident.kind.isOrdinary = true ∧
        resident.uses.instances = true ∧ name ∈ resident.ancestors)
    (justified : ∀ task ∈ tasks, setting.Justifies task) :
    (state.revise name record tasks errors).Valid setting := by
  -- Whoever has been an inhabitant of the changed class or of others, still is.
  have still : ∀ {other upper}, (∃ resident, state.class? other = some resident ∧
      resident.kind.isOrdinary = true ∧ resident.uses.instances = true ∧
        upper ∈ resident.ancestors) →
      ∃ resident, (state.revise name record tasks errors).class? other = some resident ∧
        resident.kind.isOrdinary = true ∧ resident.uses.instances = true ∧
          upper ∈ resident.ancestors := by
    rintro other upper ⟨resident, found', kind, uses, mem⟩
    rw [State.class?_revise]
    split
    · rename_i same
      subst same
      obtain rfl := Option.some.inj (found.symm.trans found')
      have kind' : record.fresh.kind.isOrdinary = true := by rw [fresh_eq]; exact kind
      have mem' : upper ∈ record.fresh.ancestors := by rw [fresh_eq]; exact mem
      exact ⟨record, rfl, kind', created uses, mem'⟩
    · exact ⟨resident, found', kind, uses, mem⟩
  refine valid.of_revise recordValid justified
    (valid.follows.replace (fun other linked h => ?_) fun other linked h => ?_)
    fun {upper linked other} h mem => ?_
  · rw [State.class?_revise]
    split
    · rename_i same
      subst same
      obtain rfl := Option.some.inj (found.symm.trans h)
      exact ⟨record, rfl, fresh_eq⟩
    · exact ⟨linked, h, rfl⟩
  · rw [State.class?_revise] at h
    split at h
    · rename_i same
      subst same
      cases h
      exact .inl ⟨cls, found, fresh_eq⟩
    · exact .inl ⟨linked, h, rfl⟩
  · rw [State.class?_revise] at h
    split at h
    · rename_i same
      subst same
      cases h
      exact still (residents other mem)
    · exact still (valid.residents h mem)

/-- Linking a class that has been loaded leaves the state valid. -/
theorem State.Valid.link {summary : Option ClassSummary} {parked : List Task}
    {errors : List Diagnostic} (valid : state.Valid setting)
    (status : state.status? name = some (.loaded summary parked))
    (links : setting.world.Links name record)
    (above : ∀ other ∈ record.ancestors, other = name ∨
      ∃ linked, state.class? other = some linked) :
    (state.revise name record parked errors).Valid setting := by
  have unlinked : state.class? name = none := State.class?_eq_none_of_status status rfl
  have silent : record.inhabited = [] := by cases links <;> rfl
  have kept : ∀ {other linked}, state.class? other = some linked →
      (state.revise name record parked errors).class? other = some linked := by
    intro other linked h
    rw [State.class?_revise]
    split
    · rename_i same
      subst same
      rw [unlinked] at h; cases h
    · exact h
  refine valid.of_revise (.of_links links) (fun task mem => valid.parked status mem)
    (valid.follows.replace (fun other linked h => ⟨linked, kept h, rfl⟩) fun other linked h => ?_)
    fun {upper linked other} h mem => ?_
  · rw [State.class?_revise] at h
    split at h
    · rename_i same
      subst same
      cases h
      refine .inr ⟨by rwa [links.fresh_eq], fun other mem => ?_⟩
      rcases above other mem with rfl | ⟨linked, h⟩
      · exact ⟨record, by rw [State.class?_revise, if_pos rfl]⟩
      · exact ⟨linked, kept h⟩
    · exact .inl ⟨linked, h, rfl⟩
  · rw [State.class?_revise] at h
    split at h
    · cases h; rw [silent] at mem; cases mem
    · obtain ⟨resident, found, rest⟩ := valid.residents h mem
      exact ⟨resident, kept found, rest⟩

/-- A class that is not linked may go on to a status in which it is not linked either. -/
theorem State.Valid.setStatus {status : Status} (valid : state.Valid setting)
    (before : state.class? name = none) (after : status.record? = none)
    (loaded : ∀ summary parked, status = .loaded summary parked → summary = setting.world name)
    (failed : status = .failed →
      (∀ cls, ¬ setting.world.Links name cls) ∧ state.errors ≠ [])
    (justified : ∀ task ∈ status.parked, setting.Justifies task) :
    (state.setStatus name status).Valid setting := by
  have classes := State.class?_setStatus before after
  refine ⟨valid.allow, classes ▸ valid.follows, fun {other summary parked} h => ?_,
    fun {other} h => ?_, fun {other linked} h => valid.classes (classes ▸ h),
    fun {upper linked other} h mem => ?_, valid.work, fun {other status' task} h mem => ?_,
    fun {other} h => ?_⟩
  · rcases State.status_of_setStatus h with ⟨rfl, same⟩ | h
    · exact loaded _ _ same.symm
    · exact valid.loaded h
  · rcases State.status_of_setStatus h with ⟨rfl, same⟩ | h
    · exact (failed same.symm).1
    · exact valid.failed h
  · rw [classes] at h ⊢
    exact valid.residents h mem
  · rcases State.status_of_setStatus h with ⟨_, rfl⟩ | h
    · exact justified task mem
    · exact valid.parked h mem
  · rcases State.status_of_setStatus h with ⟨_, same⟩ | h
    · exact (failed same.symm).2
    · exact valid.reported h

/-- Every step leaves the state valid. -/
theorem Change.valid (fair : setting.IsFair) (change : Change setting state next)
    (valid : state.Valid setting) : next.Valid setting := by
  cases change with
  | update found update =>
    exact valid.revise found update.fresh_eq.1 update.fresh_eq.2 (update.valid fair valid found)
      (fun _ mem => update.residents valid found mem)
      fun _ mem => update.justifies fair valid found mem
  | extend errors justified =>
    refine { valid with
      work := fun {task} mem => ?_
      reported := fun h => List.append_ne_nil_of_left_ne_nil (valid.reported h) _ }
    rcases List.mem_append.1 mem with mem | mem
    · exact valid.work mem
    · exact justified task mem
  | @await name parked new justified =>
    have unlinked : state.class? name = none := State.class?_eq_none_of_new new
    have awaited : (state.setStatus name (.awaited parked)).Valid setting :=
      valid.setStatus unlinked rfl (fun _ _ h => by cases h) (fun h => by cases h) justified
    exact { awaited with }
  | park status justified =>
    refine valid.setStatus (State.class?_eq_none_of_status status rfl) rfl
      (fun _ _ h => by cases h) (fun h => by cases h) fun task mem => ?_
    rcases List.mem_append.1 mem with mem | mem
    · exact valid.parked status mem
    · rw [List.mem_singleton.1 mem]; exact justified
  | parkLoaded status justified =>
    refine valid.setStatus (State.class?_eq_none_of_status status rfl) rfl (fun _ _ h => ?_)
      (fun h => by cases h) fun task mem => ?_
    · cases h; exact valid.loaded status
    · rcases List.mem_append.1 mem with mem | mem
      · exact valid.parked status mem
      · rw [List.mem_singleton.1 mem]; exact justified
  | @receive name unseen =>
    have unlinked := State.class?_eq_none_of_unseen unseen
    obtain ⟨parked, same, before⟩ := State.receive_of_unseen unseen (setting.world name)
    have received : (state.setStatus name (.loaded (setting.world name) parked)).Valid setting := by
      refine valid.setStatus unlinked rfl (fun _ _ h => ?_) (fun h => by cases h) fun task mem => ?_
      · cases h; rfl
      · obtain ⟨_, h, waits⟩ := before task mem
        exact valid.parked h waits
    rw [same]
    exact { received with }
  | queue wanted unlinked => exact { valid with }
  | absent status =>
    have unknown := valid.loaded status
    exact valid.link status (.absent unknown.symm) fun other mem => .inl (List.mem_singleton.1 mem)
  | @link name summary parked errors parents status above root =>
    have links : setting.world.Links name (summary.linkedAs name parents) :=
      .present (fun parent => (parents parent).fresh) (valid.loaded status).symm fun parent mem =>
        valid.follows.links (above parent mem)
    refine valid.link status links fun other mem => ?_
    rcases (links.mem_ancestors fair.rooted).1 mem with rfl | ⟨parent, kept, linked, hl, mem⟩
    · exact .inl rfl
    · right
      obtain ⟨known, found⟩ : ∃ known, state.class? parent = some known := by
        rcases ClassSummary.mem_parents_of_kept kept with declared | ⟨rfl, ne⟩
        · exact ⟨_, above parent declared⟩
        · exact root ne
      obtain rfl := hl.unique (valid.follows.links found)
      exact valid.follows.ancestor found mem
  | fail status unlinkable reported =>
    exact valid.setStatus (State.class?_eq_none_of_status status rfl) rfl (fun _ _ h => by cases h)
      (fun _ => ⟨unlinkable, reported⟩) fun _ mem => by cases mem

/-- Any number of steps leave the state valid. -/
theorem Changes.valid (fair : setting.IsFair) (changes : Changes setting state next)
    (valid : state.Valid setting) : next.Valid setting := by
  induction changes with
  | refl => exact valid
  | tail _ change ih => exact change.valid fair ih

/-- So does any number of moves. -/
theorem Moves.valid (fair : setting.IsFair) (moves : Moves setting state next)
    (valid : state.Valid setting) : next.Valid setting := by
  induction moves with
  | refl => exact valid
  | tail _ move ih =>
    cases move with
    | change change => exact change.valid fair ih
    | take fewer => exact { ih with work := fun mem => ih.work (fewer mem) }

end ClassLinker
