import ClassLinker.Proofs.Callers
import ClassLinker.Proofs.Certificates
import ClassLinker.Proofs.Hiding

/-!
# Calls that are made again

A call that has been dispatched in a class before is not resolved again when it comes from
elsewhere; its caller is entered in the method that is taken for the target (`State.callAgain`).
That is the method which full dispatch leads to, unless the class itself has a method without code
that hides code it inherits: then the caller is entered there, and a method without code becomes
reachable.

* `State.Replays`: making the call again enters the caller in the target of full dispatch only;
* `Analysis.Records`: in the end all callers of a method are entered where it is implemented, and no
  abstract method is reachable but those that an error names;
* `replays_and_records_iff`: both hold exactly where no class hides inherited code in this way.
-/

namespace ClassLinker

variable {setting : Setting} {state next : State}
variable {name other owner : ClassName} {cls record : ClassRecord} {task : Task}
variable {key : MethodKey} {entry : MethodRecord} {method : MethodName} {cause : Cause}

/-! ### One call -/

namespace State

/-- Making the call again enters the caller in the method that full dispatch leads to, and in no
other one. -/
def Replays (state : State) (name : ClassName) (method : MethodName) (cause : Cause) : Prop :=
  let target := (state.dispatch name method cause).1
  (∃ entry, state.method? target = some entry) ∧
    ∀ id, (state.callAgain name method cause).method? id =
      if id = target then (state.method? id).map fun entry => entry.calledBy cause
      else state.method? id

/-- Where the call made again has its caller entered. -/
theorem method?_callAgain {target : MethodId} (found : state.class? target.owner = some cls)
    (has : cls.method? target.key = some entry)
    (again : state.dispatchedBefore? name method = some target) (id : MethodId) :
    (state.callAgain name method cause).method? id =
      if id = target then (state.method? id).map fun entry => entry.calledBy cause
      else state.method? id := by
  have same : state.callAgain name method cause =
      state.called target.owner cls target.key entry cause [] := by
    unfold callAgain
    simp only [again]
    exact addCaller_eq found has cause
  have at_ : state.method? target = some entry := by
    rw [method?, found]
    exact has
  rw [same, method?_called found]
  by_cases same : id = target
  · subst same
    rw [if_pos ⟨rfl, rfl⟩, if_pos rfl, at_]
    rfl
  · rw [if_neg same, if_neg]
    rintro ⟨owner_eq, key_eq⟩
    obtain ⟨_, _, _⟩ := id
    obtain ⟨_, _, _⟩ := target
    cases owner_eq
    cases key_eq
    exact same rfl

/-- A new caller is entered in the target of full dispatch exactly if this is the method that is
taken for the target of the call made again. -/
theorem replays_iff {target : MethodId} (found : state.class? target.owner = some cls)
    (has : cls.method? target.key = some entry)
    (again : state.dispatchedBefore? name method = some target)
    (known : ∃ entry, state.method? (state.dispatch name method cause).1 = some entry)
    (new : ∀ entry, state.method? (state.dispatch name method cause).1 = some entry →
      cause ∉ entry.callers) :
    state.Replays name method cause ↔ (state.dispatch name method cause).1 = target := by
  constructor
  · rintro ⟨_, enters⟩
    by_contra other
    obtain ⟨entry, at_⟩ := known
    have entered := enters (state.dispatch name method cause).1
    rw [method?_callAgain found has again, if_neg other, if_pos rfl, at_] at entered
    have same : entry = entry.calledBy cause := Option.some.inj entered
    refine new entry at_ ?_
    rw [same]
    exact mem_recordOnce.2 (.inr rfl)
  · intro same
    refine ⟨known, fun id => ?_⟩
    rw [method?_callAgain found has again, same]

/-- The code that a call on instances of exactly the class runs, if there is any. -/
theorem dispatch_of_inheritsCode (fair : setting.IsFair) (valid : state.Valid setting)
    (found : state.class? name = some cls)
    (direct : (method.isProxy && state.allowForwarders) = false)
    (inherits : InheritsCode state.class? state.allowForwarders name method) (cause : Cause) :
    ∃ owner record entry, (state.dispatch name method cause).1 = ⟨owner, .publicInstance, method⟩ ∧
      (state.superImplementor? name method <|> (state.defaultOwners name method).head?) =
        some owner ∧
      state.class? owner = some record ∧ record.method? ⟨.publicInstance, method⟩ = some entry ∧
      entry.isConcrete = true := by
  unfold dispatch
  rw [direct, if_neg Bool.false_ne_true]
  cases inherited : state.superImplementor? name method with
  | some owner =>
    have implementor := (superImplementor?_eq_some valid.follows fair.rooted found).1 inherited
    obtain ⟨record, found', has⟩ := implementor.has_code
    obtain ⟨entry, has, concrete⟩ := (Option.any_eq_true ..).1 has
    refine ⟨owner, record, entry, ?_, rfl, found', has, concrete⟩
    rw [resolve_of_inherited inherited]
  | none =>
    have lacks := (superImplementor?_eq_none valid.follows fair.rooted found).1 inherited
    obtain ⟨bare, some_owner⟩ := inherits.resolve_left fun ⟨owner, up⟩ => lacks owner up
    rw [← state.defaultOwners_eq] at some_owner
    obtain ⟨first, others, owners⟩ := List.exists_cons_of_ne_nil some_owner
    obtain ⟨_, record, found', _, has⟩ := exists_of_defaultOwners valid.follows found owners
    obtain ⟨entry, has, concrete⟩ := (Option.any_eq_true ..).1 has
    refine ⟨first, record, entry, ?_, by rw [owners]; rfl, found', has, concrete⟩
    rw [resolve_eq found inherited owners, bare, if_pos (by simp)]

/-- A method of the class itself is taken for the target. -/
theorem dispatchedBefore?_of_own (found : state.class? name = some cls)
    (has : cls.method? ⟨.publicInstance, method⟩ = some entry) :
    state.dispatchedBefore? name method = some ⟨name, .publicInstance, method⟩ := by
  simp only [dispatchedBefore?, found, Option.any_some, has, Option.isSome_some, if_true,
    Option.map_some]

theorem replays_of_own (found : state.class? name = some cls)
    (has : cls.method? ⟨.publicInstance, method⟩ = some entry)
    (target : (state.dispatch name method cause).1 = ⟨name, .publicInstance, method⟩)
    (new : ∀ entry, state.method? (state.dispatch name method cause).1 = some entry →
      cause ∉ entry.callers) : state.Replays name method cause := by
  have at_ : state.method? ⟨name, .publicInstance, method⟩ = some entry := by
    rw [method?, found]
    exact has
  exact (replays_iff found has (dispatchedBefore?_of_own found has) ⟨entry, target ▸ at_⟩ new).2
    target

/-- Where there is code for a call that is not reflective, the call is made again as it is
dispatched, unless a method of the class hides the code. -/
theorem replays_iff_of_inherits (fair : setting.IsFair) (valid : state.Valid setting)
    (found : state.class? name = some cls)
    (direct : (method.isProxy && state.allowForwarders) = false)
    (inherits : InheritsCode state.class? state.allowForwarders name method)
    (new : ∀ entry, state.method? (state.dispatch name method cause).1 = some entry →
      cause ∉ entry.callers) :
    state.Replays name method cause ↔
      ¬ Shadows state.class? state.allowForwarders name method := by
  obtain ⟨owner, record, code, target, searched, found', has', concrete⟩ :=
    dispatch_of_inheritsCode fair valid found direct inherits cause
  have known : ∃ entry, state.method? (state.dispatch name method cause).1 = some entry := by
    rw [target, method?, found']
    exact ⟨code, has'⟩
  cases has : cls.method? ⟨.publicInstance, method⟩ with
  | none =>
    have again : state.dispatchedBefore? name method =
        some ⟨owner, .publicInstance, method⟩ := by
      simp only [dispatchedBefore?, found, Option.any_some, has, Option.isSome_none,
        Bool.false_eq_true, if_false, searched, Option.map_some]
    refine iff_of_true ((replays_iff found' has' again known new).2 target) ?_
    rintro ⟨⟨linked, entry, found'', has'', _⟩, _⟩
    obtain rfl := Option.some.inj (found.symm.trans found'')
    cases has.symm.trans has''
  | some entry =>
    rw [replays_iff found has (dispatchedBefore?_of_own found has) known new, target]
    constructor
    · rintro same ⟨⟨linked, shadow, found'', has'', vague⟩, _⟩
      obtain rfl : owner = name := congrArg MethodId.owner same
      obtain rfl := Option.some.inj (found'.symm.trans found'')
      obtain rfl := Option.some.inj (has'.symm.trans has'')
      rw [concrete] at vague
      cases vague
    · intro open_
      cases concrete : entry.isConcrete with
      | false => exact absurd ⟨⟨cls, entry, found, has, concrete⟩, inherits⟩ open_
      | true =>
        have code : cls.hasConcrete method = true := by
          rw [ClassRecord.hasConcrete, has, Option.any_some, concrete]
        rw [(superImplementor?_eq_some valid.follows fair.rooted found).2 (.here found code)]
          at searched
        rw [← Option.some.inj searched]

/-- A call that has been dispatched is made again as it is dispatched, unless it is not reflective
and a method of the class hides inherited code. -/
theorem replays_iff_not_shadows (fair : setting.IsFair) (valid : state.Valid setting)
    (found : state.class? name = some cls) (kind : cls.kind.isOrdinary = true)
    (dispatched : state.Dispatched name method)
    (new : ∀ entry, state.method? (state.dispatch name method cause).1 = some entry →
      cause ∉ entry.callers) :
    state.Replays name method cause ↔ (method.isProxy && state.allowForwarders) = true ∨
      ¬ Shadows state.class? state.allowForwarders name method := by
  have own : state.IsReached ⟨name, .publicInstance, method⟩ →
      ∃ entry, cls.method? ⟨.publicInstance, method⟩ = some entry := by
    rintro ⟨entry, at_, _⟩
    rw [method?, found, Option.bind_some] at at_
    exact ⟨entry, at_⟩
  cases reflective : method.isProxy && state.allowForwarders with
  | true =>
    unfold Dispatched at dispatched
    rw [if_pos reflective] at dispatched
    obtain ⟨entry, has⟩ := own dispatched
    refine iff_of_true (replays_of_own found has ?_ new) (.inl rfl)
    unfold dispatch
    rw [if_pos reflective]
    simp only [resolveProxy, found, MethodId.key, has]
  | false =>
    unfold Dispatched at dispatched
    rw [reflective, if_neg Bool.false_ne_true] at dispatched
    simp only [Bool.false_eq_true, false_or]
    rcases dispatched.inheritsCode found (fun _ => kind) with inherits | ⟨lacks, reached, _⟩
    · exact replays_iff_of_inherits fair valid found reflective inherits new
    · obtain ⟨entry, has⟩ := own reached
      refine iff_of_true (replays_of_own found has ?_ new)
        fun hides => lacks.not_inheritsCode hides.2
      have none := (superImplementor?_eq_none valid.follows fair.rooted found).2 lacks.lacks
      unfold dispatch
      rw [reflective, if_neg Bool.false_ne_true]
      simp only [resolve, none, lacks.owners]

end State

/-! ### What is recorded in the end -/

/-- The method is the one that a call on instances of exactly the class is for: the method of the
class itself if the call is reflective or nothing implements the method, and otherwise what does. -/
def Targets (classes : Lookup) (allowForwarders : Bool) (name : ClassName) (method : MethodName)
    (id : MethodId) : Prop :=
  if method.isProxy && allowForwarders then id = ⟨name, .publicInstance, method⟩
  else id = ⟨id.owner, .publicInstance, method⟩ ∧
    (Implements classes name method id.owner ∨
      (∀ owner, ¬ Implements classes name method owner) ∧ id.owner = name)

/-- Every call of the method that is noted on a class has its cause among the callers of what
implements the method, for all instances below the class, and the method is not reachable where it
is abstract unless an error says so. -/
structure Analysis.Records (analysis : Analysis) (allowForwarders : Bool) (method : MethodName) :
    Prop where
  callers : ∀ {upper cls receiver cause}, analysis.class? upper = some cls →
    receiver ∈ cls.inhabited → (method, cause) ∈ cls.calls →
      ∃ id entry, Targets analysis.class? allowForwarders receiver method id ∧
        analysis.method? id = some entry ∧ cause ∈ entry.callers
  abstract : ∀ {name entry}, analysis.method? ⟨name, .publicInstance, method⟩ = some entry →
    entry.isReached = true → entry.isPresent = true → entry.isAbstract = true →
      ∃ cause, .missingMethod ⟨name, .publicInstance, method⟩ cause ∈ analysis.errors

namespace State

/-- The errors of a result that are about methods are those of the state. -/
theorem mem_errors_of_result {id : MethodId} (mem : .missingMethod id cause ∈ state.result.errors) :
    .missingMethod id cause ∈ state.errors :=
  (mem_errors_or_conflict mem).resolve_right fun ⟨_, _, same⟩ => by cases same

/-- Where the caller is entered is what the call is for, unless inherited code is hidden. -/
theorem Credited.targets (credited : state.Credited name method cause) :
    (∃ id entry, Targets state.class? state.allowForwarders name method id ∧
      state.method? id = some entry ∧ cause ∈ entry.callers) ∨
    (method.isProxy && state.allowForwarders) = false ∧
      Shadows state.class? state.allowForwarders name method ∧
        state.IsReached ⟨name, .publicInstance, method⟩ := by
  have resolved : ∀ {owner}, (method.isProxy && state.allowForwarders) = false →
      (Implements state.class? name method owner ∨
        (∀ owner, ¬ Implements state.class? name method owner) ∧ owner = name) →
      state.HasCaller ⟨owner, .publicInstance, method⟩ cause →
        ∃ id entry, Targets state.class? state.allowForwarders name method id ∧
          state.method? id = some entry ∧ cause ∈ entry.callers := by
    rintro owner direct implements_ ⟨entry, at_, mem⟩
    refine ⟨⟨owner, .publicInstance, method⟩, entry, ?_, at_, mem⟩
    rw [Targets, direct, if_neg Bool.false_ne_true]
    exact ⟨rfl, implements_⟩
  cases credited with
  | reflective reflective _ caller =>
    obtain ⟨entry, at_, mem⟩ := caller
    exact .inl ⟨_, entry, by rw [Targets, if_pos reflective], at_, mem⟩
  | inherited direct implementor caller =>
    exact .inl (resolved direct (.inl (.inl implementor)) caller)
  | default bare lacks owners caller =>
    refine .inl (resolved (by rw [bare, Bool.and_false]) (.inl (.inr ⟨lacks, ?_⟩)) caller)
    rw [← state.defaultOwners_eq, owners, List.head?_cons]
  | missing direct lacks caller =>
    refine .inl (resolved direct (.inr ⟨fun owner implements_ => ?_, rfl⟩) caller)
    rcases implements_ with implementor | ⟨_, first⟩
    · exact lacks.lacks owner implementor
    · rw [← state.defaultOwners_eq, lacks.owners] at first
      cases first
  | hidden direct hides reached => exact .inr ⟨direct, hides, reached⟩

/-- All calls of a method that is not reflective are recorded exactly if no reachable method hides
inherited code. -/
theorem records_iff (allow : state.allowForwarders = setting.allow)
    (explains : state.Explains method) (credits : state.Credits method) :
    state.result.Records setting.allow method ↔
      ∀ name, state.result.IsReached ⟨name, .publicInstance, method⟩ →
        ¬ Shadows state.result.class? setting.allow name method := by
  have classes : state.result.class? = state.class? := funext state.class?_result
  have methods : state.result.method? = state.method? := funext state.method?_result
  rw [classes, ← allow]
  simp only [isReached_result]
  constructor
  · rintro records name ⟨entry, at_, reached⟩ ⟨⟨cls, shadow, found, has, vague⟩, inherits⟩
    have at' : state.method? ⟨name, .publicInstance, method⟩ = some shadow := by
      rw [method?, found]
      exact has
    obtain rfl := Option.some.inj (at_.symm.trans at')
    have unreported : ∀ cause,
        .missingMethod ⟨name, .publicInstance, method⟩ cause ∉ state.errors := fun cause mem =>
      (explains.missing mem).2.not_inheritsCode inherits
    rcases explains.vague at_ reached vague with ⟨cause, mem⟩ | ⟨present, _⟩
    · exact unreported cause mem
    · have isAbstract : entry.isAbstract = true := by
        simpa [MethodRecord.isConcrete, present] using vague
      obtain ⟨cause, mem⟩ := records.abstract (methods ▸ at_) reached present isAbstract
      exact unreported cause (mem_errors_of_result mem)
  · intro open_
    refine ⟨fun {upper cls receiver cause} found resident noted => ?_,
      fun {name entry} at_ reached _ isAbstract => ?_⟩
    · rw [classes] at found
      rw [classes, methods]
      rcases (credits found resident noted).targets with target | ⟨_, hides, reached⟩
      · exact target
      · exact absurd hides (open_ receiver reached)
    · rw [methods] at at_
      have vague : entry.isConcrete = false := by simp [MethodRecord.isConcrete, isAbstract]
      rcases explains.vague at_ reached vague with ⟨cause, mem⟩ | ⟨_, hides⟩
      · exact ⟨cause, mem_errors_result mem⟩
      · exact absurd hides (open_ name ⟨entry, at_, reached⟩)

/-- All reflective calls of a method that no class declares are recorded. -/
theorem records_of_reflective (valid : state.Valid setting)
    (reflective : (method.isProxy && setting.allow) = true)
    (undeclared : ∀ {name cls}, setting.world.classes name = some cls →
      cls.method? ⟨.publicInstance, method⟩ = none)
    (credits : state.Credits method) : state.result.Records setting.allow method := by
  have classes : state.result.class? = state.class? := funext state.class?_result
  have methods : state.result.method? = state.method? := funext state.method?_result
  refine ⟨fun {upper cls receiver cause} found resident noted => ?_,
    fun {name entry} at_ _ present isAbstract => ?_⟩
  · rw [classes] at found
    rw [classes, methods, ← valid.allow]
    rcases (credits found resident noted).targets with target | ⟨direct, _⟩
    · exact target
    · rw [valid.allow] at direct
      exact absurd (direct.symm.trans reflective) Bool.false_ne_true
  · rw [methods, method?] at at_
    obtain ⟨cls, found, has⟩ := Option.bind_eq_some_iff.1 at_
    cases (valid.classes found).entries has with
    | declared declares =>
      have none : cls.fresh.method? ⟨.publicInstance, method⟩ = none :=
        undeclared (valid.follows.classes_eq found)
      cases none.symm.trans declares
    | missing _ _ isPresent => rw [present] at isPresent; cases isPresent
    | added _ _ _ _ _ _ _ _ vague => rw [isAbstract] at vague; cases vague

/-- The callers of a method are credited in the course of a run, if no class declares the method in
case it is reflective. -/
theorem credits_of_turns (fair : setting.IsFair)
    (turns : Turns setting { allowForwarders := setting.allow } state)
    (undeclared : (method.isProxy && setting.allow) = true → ∀ name cls,
      setting.world.classes name = some cls → cls.method? ⟨.publicInstance, method⟩ = none) :
    state.Credits method := by
  refine Turns.credits fair (valid_empty setting) (fun reflective name => ?_) turns fun found => ?_
  · have none := undeclared reflective
    cases found : setting.world.classes name with
    | none => simp [defaultOwnersIn, candidatesIn, found, notOverridden]
    | some cls =>
      refine (defaultOwnersIn_eq_nil (Universe.follows_classes fair.rooted) fair.rooted found).2
        fun interface _ record found' _ => ?_
      rw [ClassRecord.hasConcrete, none interface record found', Option.any_none]
  · rw [class?_blank] at found
    cases found

end State

/-- In every state that a run can come to, in whatever order its tasks are done, a call that has
been dispatched is made again as it is dispatched, exactly unless it is not reflective and a method
of the class without code hides inherited code. In the end, all callers of a method are recorded
exactly if no reachable method does so. -/
theorem replays_and_records_iff {loader : Loader} {allowForwarders : Bool}
    {requirement : Requirement} (rooted : loader.knows.IsRooted) :
    (∀ state, Moves (loader.runs allowForwarders requirement) { allowForwarders } state →
      ∀ name cls method cause, state.class? name = some cls → cls.kind.isOrdinary = true →
        state.Dispatched name method →
        (∀ entry, state.method? (state.dispatch name method cause).1 = some entry →
          cause ∉ entry.callers) →
        (state.Replays name method cause ↔ (method.isProxy && allowForwarders) = true ∨
          ¬ Shadows state.class? allowForwarders name method)) ∧
    ∀ analysis after, analyze allowForwarders requirement loader = (.ok analysis, after) →
      ∀ method : MethodName,
        ((method.isProxy && allowForwarders) = true → ∀ name cls,
          loader.knows.classes name = some cls → cls.method? ⟨.publicInstance, method⟩ = none) →
        (analysis.Records allowForwarders method ↔ (method.isProxy && allowForwarders) = true ∨
          ∀ name, analysis.IsReached ⟨name, .publicInstance, method⟩ →
            ¬ Shadows analysis.class? allowForwarders name method) := by
  let setting := loader.runs allowForwarders requirement
  have fair : setting.IsFair := Loader.isFair_settingFor rooted
  have full : ∀ fact, setting.facts fact := fun _ => trivial
  have blank := State.valid_empty setting
  refine ⟨fun state moves name cls method cause found kind dispatched new => ?_,
    fun analysis after ends method undeclared => ?_⟩
  · have valid := Moves.valid fair moves blank
    have allow : state.allowForwarders = allowForwarders := valid.allow
    rw [← allow]
    exact State.replays_iff_not_shadows fair valid found kind dispatched new
  · have vacuous : analysis.classes = ∅ → (analysis.Records allowForwarders method ↔
        (method.isProxy && allowForwarders) = true ∨
          ∀ name, analysis.IsReached ⟨name, .publicInstance, method⟩ →
            ¬ Shadows analysis.class? allowForwarders name method) := by
      intro empty
      refine iff_of_true ⟨fun found => ?_, fun at_ reached => ?_⟩ (.inr fun name reached => ?_)
      · rw [Analysis.class?_of_isEmpty empty] at found
        cases found
      · exact absurd ⟨_, at_, reached⟩ (Analysis.not_isReached_of_isEmpty empty)
      · exact absurd reached (Analysis.not_isReached_of_isEmpty empty)
    rcases analyze_eq_result ends with ⟨_, _, _, rfl⟩ | ⟨_, _, empty⟩ |
      ⟨root, steps, later, state, known, isRoot, loads, settles, rfl⟩
    · exact vacuous rfl
    · exact vacuous empty
    · obtain ⟨order, _, turns⟩ := State.turns_of_settle fair known isRoot
        (Loader.Loads.knows loads).symm settles
      have valid := order.valid
      have credits : state.Credits method := State.credits_of_turns fair turns undeclared
      cases reflective : method.isProxy && setting.allow with
      | true =>
        refine iff_of_true ?_ (.inl reflective)
        exact State.records_of_reflective valid reflective (undeclared reflective _ _) credits
      | false =>
        have explains := Turns.explains fair full blank reflective turns
          (State.explains_empty setting method)
        have iff := State.records_iff valid.allow explains credits
        have direct : (method.isProxy && allowForwarders) = false := reflective
        simp only [direct, Bool.false_eq_true, false_or]
        exact iff

/-- A class with a method, and one below it that may declare the method again. -/
def redeclaring (own : List MethodDecl) : List ClassDecl :=
  [.ofMethods .object .plain [] [],
    .ofMethods ⟨"B"⟩ .plain [.object] [.plain .publicInstance ⟨"foo__V"⟩ (some .skip)],
    .ofMethods ⟨"D"⟩ .plain [⟨"B"⟩]
      (.plain .constructor .defaultConstructor (some .skip) :: own)]

/-- The method is called on the lower class twice. -/
def callTwice : Requirement :=
  .every [.instances "tests" ⟨"D"⟩ .defaultConstructor, .call "one" ⟨"D"⟩ ⟨"foo__V"⟩,
    .call "two" ⟨"D"⟩ ⟨"foo__V"⟩]

/-- Both calls are recorded with the inherited method, and so would be one more. -/
theorem replays_and_records_inherited :
    let loader := Loader.ofDecls (redeclaring [])
    (∃ state, Moves (loader.runs true callTwice) { allowForwarders := true } state ∧
      state.Replays ⟨"D"⟩ ⟨"foo__V"⟩ .exports) ∧
    ∃ analysis after, analyze true callTwice loader = (.ok analysis, after) ∧
      analysis.Records true ⟨"foo__V"⟩ := by
  intro loader
  have known : loader.knows .object = some plainRoot := by decide +kernel
  have direct : (⟨"foo__V"⟩ : MethodName).isProxy = false := by decide +kernel
  obtain ⟨replays, records⟩ := @replays_and_records_iff loader true callTwice ⟨_, known, rfl⟩
  refine ⟨?_, ?_⟩
  · have told : ((State.start true plainRoot callTwice loader.entryPoints).settle 40
        loader).1.toOption.map (fun state =>
          ((state.class? ⟨"D"⟩).map fun cls => cls.kind.isOrdinary &&
              (cls.method? ⟨.publicInstance, ⟨"foo__V"⟩⟩).isNone,
            state.superImplementor? ⟨"D"⟩ ⟨"foo__V"⟩,
            (state.method? ⟨⟨"B"⟩, .publicInstance, ⟨"foo__V"⟩⟩).map fun entry =>
              entry.isReached && !decide (Cause.exports ∈ entry.callers))) =
        some (some true, some ⟨"B"⟩, some true) := by decide +kernel
    generalize ends : (State.start true plainRoot callTwice loader.entryPoints).settle 40 loader =
      outcome at told
    obtain ⟨_ | state, after⟩ := outcome
    · cases told
    have reached := State.reached_of_settle known rfl ends
    have valid := Moves.valid (Loader.isFair_settingFor ⟨_, known, rfl⟩) reached
      (State.valid_empty _)
    simp only [Except.toOption, Option.map_some, Option.some.injEq, Prod.mk.injEq] at told
    obtain ⟨lower, inherited, upper⟩ := told
    obtain ⟨cls, found, shape⟩ := Option.map_eq_some_iff.1 lower
    obtain ⟨entry, at_, flags⟩ := Option.map_eq_some_iff.1 upper
    simp only [Bool.and_eq_true, Option.isNone_iff_eq_none, Bool.not_eq_true',
      decide_eq_false_iff_not] at shape flags
    have implementor := (State.superImplementor?_eq_some valid.follows ⟨_, known, rfl⟩ found).1
      inherited
    have dispatched : state.Dispatched ⟨"D"⟩ ⟨"foo__V"⟩ := by
      unfold State.Dispatched
      rw [direct, Bool.false_and, if_neg Bool.false_ne_true]
      exact .implemented implementor ⟨entry, at_, flags.1⟩
    have target : (state.dispatch ⟨"D"⟩ ⟨"foo__V"⟩ .exports).1 =
        ⟨⟨"B"⟩, .publicInstance, ⟨"foo__V"⟩⟩ := by
      unfold State.dispatch
      rw [direct, Bool.false_and, if_neg Bool.false_ne_true, State.resolve_of_inherited inherited]
    refine ⟨state, reached, (replays state reached _ cls _ .exports found shape.1 dispatched
      fun other h => ?_).2 (.inr ?_)⟩
    · rw [target] at h
      obtain rfl := Option.some.inj (at_.symm.trans h)
      exact flags.2
    · rintro ⟨⟨record, shadow, found', has, _⟩, _⟩
      obtain rfl := Option.some.inj (found.symm.trans found')
      cases shape.2.symm.trans has
  · have told : (analyze true callTwice loader).1.toOption.map (fun analysis =>
        analysis.classList.all fun cls => cls.methodList.all MethodRecord.isConcrete) =
          some true := by decide +kernel
    generalize ends : analyze true callTwice loader = outcome at told
    obtain ⟨_ | analysis, after⟩ := outcome
    · cases told
    refine ⟨analysis, after, rfl, (records analysis after ends _
      fun reflective => by rw [direct] at reflective; cases reflective).2 (.inr fun name _ => ?_)⟩
    rintro ⟨⟨cls, entry, found, has, vague⟩, _⟩
    have told := Option.some.inj told
    have listed : cls ∈ analysis.classList := List.mem_map.2 ⟨(name, cls),
      Std.ExtTreeMap.mem_toList_iff_getElem?_eq_some.2 found, rfl⟩
    have entered : entry ∈ cls.methodList := List.mem_map.2 ⟨(_, entry),
      Std.ExtTreeMap.mem_toList_iff_getElem?_eq_some.2 has, rfl⟩
    rw [List.all_eq_true.1 (List.all_eq_true.1 told cls listed) entry entered] at vague
    cases vague

/-- If the lower class declares the method as abstract, the second call makes the abstract method
reachable, and no error says so. -/
theorem not_records_redeclared :
    ∃ analysis after,
      analyze true callTwice (Loader.ofDecls
        (redeclaring [.plain .publicInstance ⟨"foo__V"⟩ none])) = (.ok analysis, after) ∧
      ¬ analysis.Records true ⟨"foo__V"⟩ := by
  have told : (analyze true callTwice (Loader.ofDecls
      (redeclaring [.plain .publicInstance ⟨"foo__V"⟩ none]))).1.toOption.map (fun analysis =>
        (analysis.isClean, (analysis.method? ⟨⟨"D"⟩, .publicInstance, ⟨"foo__V"⟩⟩).map fun entry =>
          entry.isReached && entry.isPresent && entry.isAbstract)) = some (true, some true) := by
    decide +kernel
  generalize ends : analyze true callTwice (Loader.ofDecls
    (redeclaring [.plain .publicInstance ⟨"foo__V"⟩ none])) = outcome at told
  obtain ⟨_ | analysis, after⟩ := outcome
  · cases told
  obtain ⟨clean, flags⟩ := Prod.mk.inj (Option.some.inj told)
  obtain ⟨entry, at_, flags⟩ := Option.map_eq_some_iff.1 flags
  simp only [Bool.and_eq_true] at flags
  refine ⟨analysis, after, rfl, fun records => ?_⟩
  obtain ⟨cause, mem⟩ := records.abstract at_ flags.1.1 flags.1.2 flags.2
  rw [List.isEmpty_iff.1 clean] at mem
  cases mem

end ClassLinker
