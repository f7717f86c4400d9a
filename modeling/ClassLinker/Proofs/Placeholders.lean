import ClassLinker.Proofs.Replays
import ClassLinker.Proofs.Retention

/-!
# Methods that are reported as missing

A call that nothing implements is an error, and an absent method is entered for it unless the class
has the method, if only as abstract. Later calls find what has been entered, or go past it, and
other methods are added to the classes around. In the end, errors and absent methods still match:
every absent method is named by an error, and what an error names has no code.

* `MethodRecord.IsVacant`: the method is reachable and has no code;
* `State.NamesMissing` is the invariant. What has been reported stays vacant, for a run retains its
  methods (`Turns.retains`), so only what a call enters and reports anew has to be looked at
  (`Landing.vacant_of_mem`, `Landing.entered_of_absent`);
* `analyze_missing` is about the result of an analysis.
-/

namespace ClassLinker

variable {setting : Setting} {state next : State} {task : Task}
variable {name owner : ClassName} {cls record : ClassRecord} {key : MethodKey} {id : MethodId}
variable {entry later : MethodRecord} {method : MethodName} {cause other : Cause}
variable {errors : List Diagnostic} {allow : Bool} {requirement : Requirement}
variable {loader after : Loader}

/-- The method is reachable and has no code. Only a public method can be there all the same. -/
structure MethodRecord.IsVacant (entry : MethodRecord) (space : Namespace) : Prop where
  isReached : entry.isReached = true
  isConcrete : entry.isConcrete = false
  space : entry.isPresent = true → space = .publicInstance

/-- Every method that is reported as missing is vacant, and every absent method is reported. -/
structure State.NamesMissing (state : State) : Prop where
  vacant : ∀ {id cause}, .missingMethod id cause ∈ state.errors →
    ∃ entry, state.method? id = some entry ∧ entry.IsVacant id.space
  absent : ∀ {id entry}, state.method? id = some entry → entry.isPresent = false →
    ∃ cause, .missingMethod id cause ∈ state.errors

/-! ### What stays -/

theorem MethodRecord.IsVacant.stays {space : Namespace} (vacant : entry.IsVacant space)
    (stays : entry.Stays later) : later.IsVacant space where
  isReached := stays.isReached vacant.isReached
  isConcrete := stays.isConcrete.trans vacant.isConcrete
  space present := vacant.space (stays.isPresent ▸ present)

namespace State

/-- A reachable method is not replaced. -/
theorem Retains.stays_of_reached (retains : state.Retains next)
    (at_ : state.method? id = some entry) (reached : entry.isReached = true) :
    ∃ later, next.method? id = some later ∧ entry.Stays later := by
  obtain ⟨cls, found, has⟩ := Option.bind_eq_some_iff.1 at_
  obtain ⟨record, found', kept⟩ := retains.classes found
  obtain ⟨later, has', stays | bridges⟩ := kept.methods has
  · refine ⟨later, ?_, stays⟩
    rw [method?, found']
    exact has'
  · rw [bridges.isReached] at reached
    cases reached

namespace NamesMissing

/-- What has been reported stays vacant, so only what is new has to be looked at. -/
theorem of_retains (names : state.NamesMissing) (retains : state.Retains next)
    (vacant : ∀ {id cause}, .missingMethod id cause ∈ next.errors →
      .missingMethod id cause ∈ state.errors ∨
        ∃ entry, next.method? id = some entry ∧ entry.IsVacant id.space)
    (absent : ∀ {id later}, next.method? id = some later → later.isPresent = false →
      (∃ entry, state.method? id = some entry ∧ entry.isPresent = false) ∨
        ∃ cause, .missingMethod id cause ∈ next.errors) :
    next.NamesMissing where
  vacant mem := by
    rcases vacant mem with old | new
    · obtain ⟨entry, at_, vacant⟩ := names.vacant old
      obtain ⟨later, at_', stays⟩ := retains.stays_of_reached at_ vacant.isReached
      exact ⟨later, at_', vacant.stays stays⟩
    · exact new
  absent at_ missing := by
    rcases absent at_ missing with ⟨entry, at_, missing⟩ | new
    · obtain ⟨cause, mem⟩ := names.absent at_ missing
      exact ⟨cause, retains.errors.subset mem⟩
    · exact new

theorem quiet (names : state.NamesMissing) (retains : state.Retains next)
    (valid : next.Valid setting) (quiet : state.Quiet next) : next.NamesMissing := by
  refine names.of_retains retains (fun mem => .inl (quiet.silent mem)) fun {id entry} at_ missing =>
    .inl ⟨entry, quiet.methods at_ ?_, missing⟩
  obtain ⟨cls, found, has⟩ := Option.bind_eq_some_iff.1 at_
  cases (valid.classes found).entries has with
  | declared _ _ present | added _ _ _ _ _ _ _ present => cases present.symm.trans missing
  | missing _ _ _ _ reached => exact reached

/-- Taking tasks off the list is no matter. -/
theorem withWork (names : state.NamesMissing) (rest : List Task) :
    ({ state with work := rest } : State).NamesMissing :=
  ⟨names.vacant, names.absent⟩

end NamesMissing

end State

/-! ### Calls -/

/-- What a call reports as missing is the method where it lands, which is vacant. -/
theorem Landing.vacant_of_mem (found : state.class? owner = some cls)
    (landing : Landing state name cause key owner cls entry errors)
    (new : .missingMethod id other ∈ errors) :
    id = ⟨owner, key.space, key.name⟩ ∧ (entry.calledBy cause).IsVacant key.space := by
  cases landing with
  | own | proxy => cases new
  | absent =>
    cases List.mem_singleton.1 new
    exact ⟨rfl, rfl, rfl, fun present => by cases present⟩
  | @resolved method _ _ _ _ resolved =>
    cases resolved with
    | inherited => cases new
    | default _ _ _ _ _ _ conflicts =>
      exact absurd (conflicts new) (silent_conflictErrors _ _ _ _ _)
    | bridge => exact absurd new (silent_conflictErrors _ _ _ _ _)
    | missing lacks =>
      cases List.mem_singleton.1 new
      refine ⟨rfl, rfl, ?_, fun _ => rfl⟩
      -- The class may have the method, but not with code, or the call would have found that.
      cases has : cls.method? ⟨.publicInstance, method⟩ with
      | none => rfl
      | some own =>
        show own.isConcrete = false
        by_contra concrete
        refine lacks.lacks _ (.here found ?_)
        rw [ClassRecord.hasConcrete, has, Option.any_some]
        simpa using concrete

/-- An absent method where a call lands has been there, or the call reports it. -/
theorem Landing.entered_of_absent
    (landing : Landing state name cause key owner cls entry errors)
    (absent : entry.isPresent = false) :
    cls.method? key = some entry ∨ .missingMethod ⟨owner, key.space, key.name⟩ cause ∈ errors := by
  cases landing with
  | own has => exact .inl has
  | absent => exact .inr List.mem_cons_self
  | proxy => cases absent
  | resolved resolved =>
    cases resolved with
    | inherited _ has | default _ _ _ _ has => exact .inl has
    | missing => exact .inr List.mem_cons_self
    | bridge => cases absent

theorem State.NamesMissing.lands (names : state.NamesMissing) (retains : state.Retains next)
    (lands : state.Lands name key cause next) : next.NamesMissing := by
  cases lands with
  | @intro owner cls entry errors found landing =>
  refine names.of_retains retains (fun {id other} mem => ?_) fun {id later} at_ missing => ?_
  · refine (List.mem_append.1 mem).imp_right fun new => ?_
    obtain ⟨rfl, vacant⟩ := landing.vacant_of_mem found new
    exact ⟨entry.calledBy cause, by rw [method?_called found]; exact if_pos ⟨rfl, rfl⟩, vacant⟩
  · rw [method?_called found] at at_
    split at at_
    · rename_i same
      obtain ⟨rfl, rfl⟩ := same
      obtain rfl := Option.some.inj at_
      rcases landing.entered_of_absent missing with own | new
      · refine .inl ⟨entry, ?_, missing⟩
        rw [method?, found]
        exact own
      · exact .inr ⟨cause, List.mem_append_right _ new⟩
    · exact .inl ⟨later, at_, missing⟩

/-! ### Runs -/

section

variable (fair : setting.IsFair) (full : ∀ fact, setting.facts fact)
  (valid : state.Valid setting)
  (reserved : setting.allow = true → setting.world.ReservesProxies) (uncalled : state.Uncalled)
  (explains : ∀ method, (method.isProxy && setting.allow) = false → state.Explains method)

include fair full valid reserved uncalled explains

/-- Doing a task keeps errors and absent methods in step. -/
theorem Effects.namesMissing (justified : setting.Justifies task)
    (effects : Effects task state next) (names : state.NamesMissing) : next.NamesMissing := by
  induction effects with
  | refl => exact names
  | @tail middle final early effect ih =>
    have changes := Effects.changes fair full valid justified early
    have valid' := Changes.valid fair changes valid
    have retains : middle.Retains final :=
      Effects.retains fair full valid' reserved (Moves.uncalled (Changes.moves changes) uncalled)
        (fun method direct => Effects.explains fair full valid justified direct early
          (explains method direct)) justified (.single effect)
    rcases effect.strokes_or_lands fair valid' justified with strokes | ⟨_, _, _, lands⟩
    · have valid'' := Changes.valid fair (effect.changes fair full valid' justified) valid'
      exact ih.quiet retains valid'' (Strokes.quiet strokes)
    · exact ih.lands retains lands

/-- So does every turn of a run. -/
theorem Turn.namesMissing (turn : Turn setting state next)
    (names : state.NamesMissing) : next.NamesMissing := by
  rcases turn.quiet_or_perform fair with ⟨changes, quiet⟩ | ⟨task, rest, order, work, rfl⟩
  · exact names.quiet (turn.retains fair full reserved uncalled explains)
      (Changes.valid fair changes valid) quiet
  · obtain ⟨valid', consistent, justified⟩ := order.takes work
    exact Effects.namesMissing fair full valid' reserved uncalled
      (fun method direct => (explains method direct).withWork rest) justified
      (State.effects_perform fair full valid' consistent justified) (names.withWork rest)

theorem Turns.namesMissing (turns : Turns setting state next)
    (names : state.NamesMissing) : next.NamesMissing := by
  induction turns with
  | refl => exact names
  | tail early turn ih =>
    exact turn.namesMissing fair full (Turns.valid fair early valid) reserved
      (Moves.uncalled (Turns.moves fair early) uncalled)
      (fun method direct => Turns.explains fair full valid direct early (explains method direct)) ih

end

theorem State.namesMissing_blank (allowForwarders : Bool) :
    State.NamesMissing { allowForwarders } where
  vacant mem := by cases mem
  absent at_ := by
    rw [method?, class?_blank, Option.bind_none] at at_
    cases at_

/-- Wherever a run comes to, errors and absent methods match. -/
theorem Loader.Reaches.namesMissing (reaches : loader.Reaches allow requirement state)
    (reserved : allow = true → loader.knows.ReservesProxies) : state.NamesMissing := by
  have fair := reaches.isFair
  refine Turns.namesMissing fair (fun _ => trivial) (State.valid_empty _) reserved (fun found => ?_)
    (fun method _ => State.explains_empty _ method) reaches.turns (State.namesMissing_blank allow)
  rw [State.class?_blank] at found
  cases found

/-! ### Results -/

/-- The summary of the class lists this method under the key. -/
def Analysis.Lists (analysis : Analysis) (id : MethodId) (method : MethodSummary) : Prop :=
  ∃ cls summary, analysis.class? id.owner = some cls ∧ cls.summary = some summary ∧
    method ∈ summary.methods ∧ method.space = id.space ∧ method.name = id.name

namespace State.Valid

variable (valid : state.Valid setting)

include valid

/-- A method that is absent is not listed. -/
theorem not_lists_of_absent (at_ : state.method? id = some entry)
    (missing : entry.isPresent = false) (method : MethodSummary) :
    ¬ state.result.Lists id method := by
  rintro ⟨cls, summary, found, known, mem, space, named⟩
  rw [class?_result] at found
  rw [method?, found, Option.bind_some] at at_
  have has : cls.method? ⟨method.space, method.name⟩ = some entry := by
    rw [space, named]
    exact at_
  cases ((valid.classes found).isPresent_of_listed known mem has).symm.trans missing

/-- A method that is vacant has not been added. It is absent, or public and listed as abstract. -/
theorem cases_of_vacant (at_ : state.method? id = some entry) (vacant : entry.IsVacant id.space) :
    entry.forwarder = none ∧ (entry.isPresent = false ∨ id.space = .publicInstance ∧
      entry.isAbstract = true ∧ ∃ method, state.result.Lists id method ∧
        method.isAbstract = true) := by
  obtain ⟨cls, found, has⟩ := Option.bind_eq_some_iff.1 at_
  have concrete := vacant.isConcrete
  cases (valid.classes found).entries has with
  | missing _ _ absent own => exact ⟨own, .inl absent⟩
  | added _ _ _ _ _ _ _ present abstract =>
    rw [MethodRecord.isConcrete, present, abstract] at concrete
    cases concrete
  | declared declares _ present same own =>
    have abstract : entry.isAbstract = true := by
      simpa [MethodRecord.isConcrete, present] using concrete
    obtain ⟨summary, known, method, mem, key_eq, rfl⟩ := ClassRecord.exists_declared declares
    obtain ⟨space, named⟩ := MethodKey.mk.inj key_eq
    refine ⟨own, .inr ⟨vacant.space present, abstract, method, ⟨cls, summary, ?_, known, mem,
      space.symm, named.symm⟩, same.symm.trans abstract⟩⟩
    rw [class?_result, found]

end State.Valid

/-- In the result of an analysis, every absent method is reachable, is not listed by its class and
has been reported as missing. And every method that has been reported as missing is reachable and
has no code: it is absent, or it is public and its class lists it as abstract. Here no class
declares a method by a name that is reserved for proxies. -/
theorem analyze_missing {analysis : Analysis}
    (reserved : allow = true → loader.knows.ReservesProxies)
    (ends : analyze allow requirement loader = (.ok analysis, after)) :
    (∀ id entry, analysis.method? id = some entry → entry.isPresent = false →
      entry.isReached = true ∧ (∀ method, ¬ analysis.Lists id method) ∧
        ∃ cause, .missingMethod id cause ∈ analysis.errors) ∧
    ∀ id cause, .missingMethod id cause ∈ analysis.errors →
      ∃ entry, analysis.method? id = some entry ∧ entry.isReached = true ∧
        entry.isConcrete = false ∧ entry.forwarder = none ∧
        (entry.isPresent = false ∨ id.space = .publicInstance ∧ entry.isAbstract = true ∧
          ∃ method, analysis.Lists id method ∧ method.isAbstract = true) := by
  rcases analyze_course ends with ⟨empty, idle⟩ | ⟨_, state, course, _, rfl⟩
  · have nothing : ∀ id, analysis.method? id = none := by
      simp [Analysis.method?, Analysis.class?, empty]
    refine ⟨fun id entry at_ => ?_, fun id cause mem => ?_⟩
    · rw [nothing] at at_
      cases at_
    · rcases idle with ⟨clean, _⟩ | ⟨refused, _⟩
      · rw [clean] at mem
        cases mem
      · simp only [List.mem_cons, List.not_mem_nil, or_false] at refused
        rcases refused with root | root <;> simp [root] at mem
  · have valid := course.reaches.valid
    have names := course.reaches.namesMissing reserved
    refine ⟨fun id entry at_ missing => ?_, fun id cause mem => ?_⟩
    · rw [State.method?_result] at at_
      obtain ⟨cause, mem⟩ := names.absent at_ missing
      obtain ⟨_, at_', vacant⟩ := names.vacant mem
      obtain rfl := Option.some.inj (at_.symm.trans at_')
      exact ⟨vacant.isReached, valid.not_lists_of_absent at_ missing, cause,
        State.mem_errors_result mem⟩
    · obtain ⟨entry, at_, vacant⟩ := names.vacant (State.mem_errors_of_result mem)
      obtain ⟨own, kinds⟩ := valid.cases_of_vacant at_ vacant
      exact ⟨entry, (State.method?_result ..).trans at_, vacant.isReached, vacant.isConcrete, own,
        kinds⟩

/-- A class with an abstract method. -/
def withAbstract : List ClassDecl :=
  [.ofMethods .object .plain [] [],
    .ofMethods ⟨"A"⟩ .plain [.object] [.plain .constructor .defaultConstructor (some .skip),
      .plain .publicInstance ⟨"foo__V"⟩ none]]

/-- The abstract method is called, and a proxy that stands for no other method than that one. -/
def callWithoutCode : Requirement :=
  .every [.instances "test" ⟨"A"⟩ .defaultConstructor, .call "test" ⟨"A"⟩ ⟨"foo__V"⟩,
    .call "test" ⟨"A"⟩ ⟨"foo__"⟩]

/-- Both are reported. An absent method has been entered for the proxy, and the other one is listed
by its class. -/
theorem analyze_missing_withAbstract :
    let loader := Loader.ofDecls withAbstract
    let absent : MethodId := ⟨⟨"A"⟩, .publicInstance, ⟨"foo__"⟩⟩
    let abstract : MethodId := ⟨⟨"A"⟩, .publicInstance, ⟨"foo__V"⟩⟩
    ∃ analysis after, analyze true callWithoutCode loader = (.ok analysis, after) ∧
      (∃ cause, .missingMethod absent cause ∈ analysis.errors) ∧
      (∀ method, ¬ analysis.Lists absent method) ∧
      (∃ cause, .missingMethod abstract cause ∈ analysis.errors) ∧
      ∃ method, analysis.Lists abstract method ∧ method.isAbstract = true := by
  intro loader absent abstract
  have reserved : loader.knows.ReservesProxies := Loader.reservesProxies_ofDecls (by decide +kernel)
  have told : (analyze true callWithoutCode loader).1.toOption.map (fun analysis =>
      ((analysis.method? absent).map MethodRecord.isPresent,
        (analysis.method? abstract).map MethodRecord.isPresent,
        decide (.missingMethod abstract (.component "test") ∈ analysis.errors))) =
      some (some false, some true, true) := by decide +kernel
  obtain ⟨analysis, after, ends, told⟩ := exists_of_toOption_map told
  simp only [Prod.mk.injEq, decide_eq_true_eq] at told
  obtain ⟨missing, present, reported⟩ := told
  obtain ⟨entry, at_, missing⟩ := Option.map_eq_some_iff.1 missing
  obtain ⟨_, unlisted, named⟩ :=
    (analyze_missing (fun _ => reserved) ends).1 absent entry at_ missing
  obtain ⟨entry', at_', _, _, _, kinds⟩ :=
    (analyze_missing (fun _ => reserved) ends).2 abstract _ reported
  rw [at_', Option.map_some] at present
  obtain ⟨_, _, listed⟩ := kinds.resolve_left (by simp [Option.some.inj present])
  exact ⟨analysis, after, ends, named, unlisted, ⟨_, reported⟩, listed⟩

end ClassLinker
