import ClassLinker.Proofs.Ancestry
import ClassLinker.Proofs.Specificity

/-!
# Default methods

An interface that has code for a method offers it to all classes below. Of several interfaces above
a class, those count that no other one of them overrides, that is, lies below and offers the method
as well. Being below is a finite partial order, so every interface that offers the method lies at or
above one that counts.

* `OffersDefault`: the interface is above the class and has code for the method;
* `ListsDefaults`: a list consists of the interfaces that count, as they come among the ancestors of
  the class. `listsDefaults` says so of `defaultOwnersIn`, whatever classes are known;
* `State.exists_reported`: resolving a method reports at most one error, and which;
* `defaults_listed` applies both to the states of a run.
-/

namespace ClassLinker

variable {setting : Setting} {state : State} {world : Universe} {classes : Lookup}
variable {name owner other interface : ClassName} {cls record : ClassRecord} {method : MethodName}
variable {cause : Cause} {allow : Bool} {requirement : Requirement} {loader : Loader}

/-- The interface is above the class and has code for the public method. -/
def OffersDefault (classes : Lookup) (name : ClassName) (method : MethodName)
    (interface : ClassName) : Prop :=
  ∃ cls record, classes name = some cls ∧ interface ∈ cls.ancestors ∧
    classes interface = some record ∧ record.kind = .interface ∧ record.hasConcrete method = true

/-- The list consists of the interfaces above the class that offer the method and that no other one
of them overrides. It names each of them once, in the order of the ancestors of the class. No two of
them are related, and every interface that offers the method is at or above one of them. -/
structure ListsDefaults (classes : Lookup) (name : ClassName) (method : MethodName)
    (owners : List ClassName) : Prop where
  order : ∀ cls, classes name = some cls → owners.Sublist cls.ancestors
  nodup : owners.Nodup
  mem_iff : ∀ owner, owner ∈ owners ↔ OffersDefault classes name method owner ∧
    ∀ other, OffersDefault classes name method other → ¬ IsStrictlyBelow classes other owner
  unrelated : ∀ first ∈ owners, ∀ second ∈ owners, ¬ IsStrictlyBelow classes first second
  covers : ∀ interface, OffersDefault classes name method interface →
    ∃ owner ∈ owners, owner = interface ∨ IsStrictlyBelow classes owner interface
  empty_iff : owners = [] ↔ ∀ interface, ¬ OffersDefault classes name method interface

/-! ### Super classes -/

/-- Going up the super classes, some class has code for a method that one of them has code for. -/
theorem exists_implementor_of_superIn (leads : Relation.ReflTransGen (SuperIn classes) name owner)
    (found : classes owner = some record) (has : record.hasConcrete method = true) :
    ∃ nearest, Implementor classes method name nearest := by
  induction leads using Relation.ReflTransGen.head_induction_on with
  | refl => exact ⟨owner, .here found has⟩
  | @head lower upper extends_ _ ih =>
    obtain ⟨cls, found', extends_⟩ := extends_
    cases own : cls.hasConcrete method with
    | true => exact ⟨lower, .here found' own⟩
    | false =>
      obtain ⟨nearest, up⟩ := ih
      exact ⟨nearest, .above found' own extends_ up⟩

theorem Implementor.superIn (implementor : Implementor classes method name owner) :
    Relation.ReflTransGen (SuperIn classes) name owner := by
  induction implementor with
  | here => exact .refl
  | above found _ extends_ _ ih => exact .head ⟨_, found, extends_⟩ ih

/-- Nothing implements a method for a class if and only if no super class has code for it. -/
theorem lacks_iff_superIn : (∀ owner, ¬ Implementor classes method name owner) ↔
    ∀ owner record, Relation.ReflTransGen (SuperIn classes) name owner →
      classes owner = some record → record.hasConcrete method = false := by
  constructor
  · intro lacks owner record leads found
    by_contra has
    obtain ⟨nearest, implementor⟩ :=
      exists_implementor_of_superIn leads found (Bool.not_eq_false _ ▸ has)
    exact lacks nearest implementor
  · intro none owner implementor
    obtain ⟨record, found, has⟩ := implementor.has_code
    rw [none owner record implementor.superIn found] at has
    cases has

/-! ### What is listed -/

section

variable (follows : Follows world classes) (found : classes name = some cls)

include follows found

/-- The interfaces that offer a method are the candidates. -/
theorem offersDefault_iff_exists : OffersDefault classes name method interface ↔
    ∃ record ∈ candidatesIn classes name method, record.name = interface := by
  constructor
  · rintro ⟨_, record, found', mem, above, kind, has⟩
    obtain rfl := Option.some.inj (found.symm.trans found')
    exact ⟨record, (mem_candidatesIn found).2 ⟨interface, mem, above, kind, has⟩,
      follows.name_eq above⟩
  · rintro ⟨record, mem, rfl⟩
    obtain ⟨interface, above, found', h⟩ := (mem_candidatesIn found).1 mem
    obtain rfl := follows.name_eq found'
    exact ⟨cls, record, found, above, found', h⟩

theorem class_of_mem_candidatesIn (mem : record ∈ candidatesIn classes name method) :
    classes record.name = some record := by
  obtain ⟨interface, _, found', _⟩ := (mem_candidatesIn found).1 mem
  rwa [follows.name_eq found']

/-- The ancestors of a linked class are linked, under their own names. -/
theorem map_name_ancestors :
    (cls.ancestors.filterMap classes).map ClassRecord.name = cls.ancestors := by
  rw [List.map_filterMap]
  refine (List.filterMap_congr fun other mem => ?_).trans (List.filterMap_some ..)
  obtain ⟨record, above⟩ := follows.ancestor found mem
  rw [above, Option.map_some, follows.name_eq above]

theorem defaultOwnersIn_sublist :
    (defaultOwnersIn classes name method).Sublist cls.ancestors := by
  conv => rhs; rw [← map_name_ancestors follows found]
  unfold defaultOwnersIn candidatesIn State.notOverridden
  rw [found, Option.map_some, Option.getD_some]
  exact (List.filter_sublist.trans List.filter_sublist).map _

omit follows found in
theorem mem_notOverridden {candidates : List ClassRecord} :
    record ∈ State.notOverridden candidates ↔ record ∈ candidates ∧
      ∀ other ∈ candidates, other.name ≠ record.name → record.name ∉ other.ancestors := by
  simp [State.notOverridden, ClassRecord.isBelow]

/-- What is listed offers the method and is not overridden. -/
theorem mem_defaultOwnersIn_iff : owner ∈ defaultOwnersIn classes name method ↔
    OffersDefault classes name method owner ∧
      ∀ other, OffersDefault classes name method other → ¬ IsStrictlyBelow classes other owner := by
  simp only [offersDefault_iff_exists follows found, defaultOwnersIn, List.mem_map,
    mem_notOverridden]
  constructor
  · rintro ⟨record, ⟨mem, first⟩, rfl⟩
    refine ⟨⟨record, mem, rfl⟩, ?_⟩
    rintro _ ⟨other, mem', rfl⟩ ⟨ne, lower, found', above⟩
    obtain rfl :=
      Option.some.inj (found'.symm.trans (class_of_mem_candidatesIn follows found mem'))
    exact first lower mem' ne above
  · rintro ⟨⟨record, mem, rfl⟩, first⟩
    refine ⟨record, ⟨mem, fun other mem' ne above => ?_⟩, rfl⟩
    exact first other.name ⟨other, mem', rfl⟩
      ⟨ne, other, class_of_mem_candidatesIn follows found mem', above⟩

variable (rooted : world.IsRooted)

include rooted

/-- At or below every interface that offers a method, there is one that is listed: one with the most
ancestors among those that lie there. -/
theorem exists_mem_defaultOwnersIn (offers : OffersDefault classes name method interface) :
    ∃ owner ∈ defaultOwnersIn classes name method,
      owner = interface ∨ IsStrictlyBelow classes owner interface := by
  obtain ⟨record, mem, rfl⟩ := (offersDefault_iff_exists follows found).1 offers
  have known : ∀ {other}, other ∈ candidatesIn classes name method →
      classes other.name = some other := class_of_mem_candidatesIn follows found
  let below := (candidatesIn classes name method).filter fun other => other.isBelow record.name
  have mem_below : ∀ {other}, other ∈ below ↔
      other ∈ candidatesIn classes name method ∧ record.name ∈ other.ancestors := by
    simp [below, ClassRecord.isBelow]
  have self : record ∈ below := mem_below.2 ⟨mem, follows.self_mem rooted (known mem)⟩
  obtain ⟨lowest, chosen⟩ := List.exists_mem_of_ne_nil _ (notOverridden_ne_nil follows rooted
    (fun other h => known (mem_below.1 h).1) (List.ne_nil_of_mem self))
  obtain ⟨inside, first⟩ := mem_notOverridden.1 chosen
  obtain ⟨offered, above⟩ := mem_below.1 inside
  refine ⟨lowest.name, List.mem_map.2 ⟨lowest, mem_notOverridden.2 ⟨offered, ?_⟩, rfl⟩, ?_⟩
  · -- What overrides this one lies below the given interface, too.
    intro other mem' ne up
    exact first other (mem_below.2 ⟨mem',
      follows.ancestors_subset rooted (known mem') up (known offered) above⟩) ne up
  · exact (eq_or_ne lowest.name record.name).imp_right fun ne => ⟨ne, lowest, known offered, above⟩

/-- The interfaces whose default methods count are listed. -/
theorem listsDefaults :
    ListsDefaults classes name method (defaultOwnersIn classes name method) where
  order record found' := by
    obtain rfl := Option.some.inj (found.symm.trans found')
    exact defaultOwnersIn_sublist follows found
  nodup := (defaultOwnersIn_sublist follows found).nodup (follows.links found).nodup_ancestors
  mem_iff owner := mem_defaultOwnersIn_iff follows found
  unrelated first mem second mem' := by
    obtain ⟨offers, _⟩ := (mem_defaultOwnersIn_iff follows found).1 mem
    exact ((mem_defaultOwnersIn_iff follows found).1 mem').2 first offers
  covers interface offers := exists_mem_defaultOwnersIn follows found rooted offers
  empty_iff := by
    constructor
    · intro empty interface offers
      obtain ⟨owner, mem, _⟩ := exists_mem_defaultOwnersIn follows found rooted offers
      rw [empty] at mem
      cases mem
    · intro none
      refine List.eq_nil_iff_forall_not_mem.2 fun owner mem => ?_
      exact none owner ((mem_defaultOwnersIn_iff follows found).1 mem).1

end

/-! ### What is reported -/

namespace State

/-- Reporting that a method is missing is one error. -/
theorem errors_reportMissing (state : State) (id : MethodId) (cause : Cause) :
    (state.reportMissing id cause).errors = state.errors ++ [.missingMethod id cause] := by
  unfold reportMissing modifyClass report
  simp only
  split <;> rfl

theorem mem_conflictErrors_iff {owners : List ClassName} {methods : List MethodId} {other : Cause} :
    .conflictingDefaults methods other ∈ conflictErrors method owners cause ↔
      other = cause ∧ methods = owners.map (fun owner => ⟨owner, .publicInstance, method⟩) ∧
        2 ≤ owners.length := by
  unfold conflictErrors
  split
  · simp only [List.not_mem_nil, false_iff]
    omega
  · simp only [List.mem_singleton, Diagnostic.conflictingDefaults.injEq]
    constructor
    · rintro ⟨rfl, rfl⟩
      exact ⟨rfl, rfl, by omega⟩
    · rintro ⟨rfl, rfl, _⟩
      exact ⟨rfl, rfl⟩

/-- Resolving a method reports at most one error. It is a conflict of default methods if and only if
nothing in the super classes implements the method and several interfaces offer it. -/
theorem exists_reported (found : state.class? name = some cls) (method : MethodName)
    (cause : Cause) :
    ∃ reported, reported.length ≤ 1 ∧
      (state.resolve name method cause).2.errors = state.errors ++ reported ∧
      ∀ methods other, .conflictingDefaults methods other ∈ reported ↔
        state.superImplementor? name method = none ∧ other = cause ∧
          methods = (state.defaultOwners name method).map
            (fun owner => ⟨owner, .publicInstance, method⟩) ∧
          2 ≤ (state.defaultOwners name method).length := by
  cases inherited : state.superImplementor? name method with
  | some owner =>
    refine ⟨[], Nat.zero_le _, ?_, fun methods other => by simp⟩
    rw [resolve_of_inherited inherited, List.append_nil]
  | none =>
    cases owners : state.defaultOwners name method with
    | nil =>
      refine ⟨[.missingMethod ⟨name, .publicInstance, method⟩ cause], Nat.le_refl _, ?_,
        fun methods other => by simp⟩
      unfold resolve
      simp only [inherited, owners]
      exact errors_reportMissing ..
    | cons first others =>
      refine ⟨conflictErrors method (first :: others) cause, ?_, ?_, fun methods other => ?_⟩
      · unfold conflictErrors
        split <;> simp
      · rw [resolve_eq found inherited owners]
        split
        · rfl
        · exact errors_addForwarder ..
      · simp only [mem_conflictErrors_iff, true_and]

end State

/-! ### Runs -/

/-- In every state of a run, the interfaces whose default methods count for a linked class are
listed, and resolving a method reports a conflict if and only if no super class has code for it and
there are several of them: once, and all of them in order. -/
theorem defaults_listed (rooted : loader.knows.IsRooted)
    (reached : Moves (loader.runs allow requirement) { allowForwarders := allow } state)
    (found : state.class? name = some cls) (method : MethodName) :
    ListsDefaults state.class? name method (state.defaultOwners name method) ∧
    ∀ cause, ∃ reported, reported.length ≤ 1 ∧
      (state.resolve name method cause).2.errors = state.errors ++ reported ∧
      ∀ methods other, .conflictingDefaults methods other ∈ reported ↔
        (∀ owner record, Relation.ReflTransGen (SuperIn state.class?) name owner →
          state.class? owner = some record → record.hasConcrete method = false) ∧
        other = cause ∧
        methods = (state.defaultOwners name method).map
          (fun owner => ⟨owner, .publicInstance, method⟩) ∧
        2 ≤ (state.defaultOwners name method).length := by
  have fair : (loader.runs allow requirement).IsFair := Loader.isFair_settingFor rooted
  have follows := (Moves.valid fair reached (State.valid_empty _)).follows
  refine ⟨?_, fun cause => ?_⟩
  · rw [state.defaultOwners_eq]
    exact listsDefaults follows found fair.rooted
  · obtain ⟨reported, few, errors, conflict⟩ := State.exists_reported found method cause
    refine ⟨reported, few, errors, fun methods other => ?_⟩
    rw [conflict, State.superImplementor?_eq_none follows fair.rooted found, lacks_iff_superIn]

/-- A class that inherits an interface from its super class and names three more of them: one that
overrides the inherited one, the inherited one again, and another one. -/
def overridden : List ClassDecl :=
  let code : List MethodDecl := [.plain .publicInstance ⟨"foo__V"⟩ (some .skip)]
  let init : List MethodDecl := [.plain .constructor .defaultConstructor (some .skip)]
  [.ofMethods .object .plain [] [],
    .ofMethods ⟨"I"⟩ .interface [] code,
    .ofMethods ⟨"J"⟩ .interface [⟨"I"⟩] code,
    .ofMethods ⟨"K"⟩ .interface [] code,
    .ofMethods ⟨"B"⟩ .plain [.object, ⟨"I"⟩] init,
    .ofMethods ⟨"A"⟩ .plain [⟨"B"⟩, ⟨"K"⟩, ⟨"I"⟩, ⟨"J"⟩] init]

/-- The overridden one does not count, although the class names it, and the other two are in
conflict. -/
theorem defaults_listed_overridden :
    let setting := (Loader.ofDecls overridden).runs true
      (.instances "test" ⟨"A"⟩ .defaultConstructor)
    ∃ state cls, Moves setting { allowForwarders := true } state ∧
      state.class? ⟨"A"⟩ = some cls ∧
      cls.ancestors = [⟨"A"⟩, ⟨"B"⟩, .object, ⟨"I"⟩, ⟨"K"⟩, ⟨"J"⟩] ∧
      ListsDefaults state.class? ⟨"A"⟩ ⟨"foo__V"⟩ [⟨"K"⟩, ⟨"J"⟩] ∧
      .conflictingDefaults [⟨⟨"K"⟩, .publicInstance, ⟨"foo__V"⟩⟩,
          ⟨⟨"J"⟩, .publicInstance, ⟨"foo__V"⟩⟩] .exports ∈
        (state.resolve ⟨"A"⟩ ⟨"foo__V"⟩ .exports).2.errors := by
  have known : (Loader.ofDecls overridden).knows .object = some plainRoot := by decide +kernel
  have told : ((State.start true plainRoot (.instances "test" ⟨"A"⟩ .defaultConstructor)
      (Loader.ofDecls overridden).entryPoints).settle 40
        (Loader.ofDecls overridden)).1.toOption.map (fun state =>
          ((state.class? ⟨"A"⟩).map ClassRecord.ancestors,
            state.superImplementor? ⟨"A"⟩ ⟨"foo__V"⟩, state.defaultOwners ⟨"A"⟩ ⟨"foo__V"⟩)) =
      some (some [⟨"A"⟩, ⟨"B"⟩, .object, ⟨"I"⟩, ⟨"K"⟩, ⟨"J"⟩], none, [⟨"K"⟩, ⟨"J"⟩]) := by
    decide +kernel
  obtain ⟨state, after, ends, told⟩ := exists_of_toOption_map told
  simp only [Prod.mk.injEq] at told
  obtain ⟨ancestors, uninherited, owners⟩ := told
  obtain ⟨cls, found, ancestors⟩ := Option.map_eq_some_iff.1 ancestors
  have reached := State.reached_of_settle known rfl ends
  have follows := (Moves.valid (Loader.isFair_settingFor ⟨_, known, rfl⟩) reached
    (State.valid_empty _)).follows
  obtain ⟨lists, reports⟩ := defaults_listed ⟨_, known, rfl⟩ reached found ⟨"foo__V"⟩
  obtain ⟨reported, _, errors, conflict⟩ := reports .exports
  rw [owners] at lists conflict
  refine ⟨state, cls, reached, found, ancestors, lists, ?_⟩
  rw [errors]
  refine List.mem_append_right _ ((conflict _ _).2 ⟨lacks_iff_superIn.1 ?_, rfl, rfl, by decide⟩)
  exact (State.superImplementor?_eq_none follows ⟨_, known, rfl⟩ found).1 uninherited

end ClassLinker
