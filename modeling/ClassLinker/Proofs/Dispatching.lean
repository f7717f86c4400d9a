import ClassLinker.Proofs.Outcomes

/-!
# Calls and instances meet

A call with dynamic dispatch and the creation of an instance can be discovered in either order. In
the end, every call that has been applied on a class has its target in all classes below that
instances are created of: the nearest implementation in the super classes, or the first default
method, or an absent method that an error names (`analyze_dispatches`). This holds of analyses that
find errors, too.
-/

namespace ClassLinker

variable {setting : Setting} {state : State} {loader after : Loader}
variable {name below owner : ClassName} {cls record : ClassRecord}
variable {method : MethodName} {requirement : Requirement} {analysis : Analysis}

namespace Analysis

/-- The method is known and reachable. -/
def IsReached (analysis : Analysis) (method : MethodId) : Prop :=
  ∃ entry, analysis.method? method = some entry ∧ entry.isReached = true

/-- A call with dynamic dispatch has been applied on receivers of the class: a requirement asks for
it, or the body of a reachable method makes it, or the class has noted it for some other reason.
Methods that the analysis has added have no body. -/
inductive Applies (analysis : Analysis) (requirement : Requirement) (name : ClassName)
    (method : MethodName) : Prop
  | required {task : Task} (leaf : task ∈ requirement.tasks false) (cls_eq : task.cls = name)
      (action : task.action = .fulfil (.call method))
  | body {id : MethodId} {cls : ClassRecord} {entry : MethodRecord} {summary : ClassSummary}
      {declared : MethodSummary} (found : analysis.class? id.owner = some cls)
      (has : cls.method? id.key = some entry) (reached : entry.isReached = true)
      (present : entry.isPresent = true) (own : entry.forwarder = none)
      (known : cls.summary = some summary)
      (declares : summary.method? id.space id.name = some declared)
      (demands : (name, .call method) ∈ declared.demands.toList)
  | noted {cls : ClassRecord} {cause : Cause} (found : analysis.class? name = some cls)
      (mem : (method, cause) ∈ cls.calls)

theorem class?_of_isEmpty (empty : analysis.classes = ∅) (name : ClassName) :
    analysis.class? name = none := by
  rw [class?, empty, Std.ExtTreeMap.getElem?_empty]

theorem not_isReached_of_isEmpty (empty : analysis.classes = ∅) {id : MethodId} :
    ¬ analysis.IsReached id := by
  rintro ⟨entry, at_, _⟩
  rw [method?, class?_of_isEmpty empty] at at_
  cases at_

end Analysis

namespace State

theorem isReached_result {id : MethodId} : state.result.IsReached id ↔ state.IsReached id := by
  unfold Analysis.IsReached IsReached Analysis.method? method?
  rw [class?_result]

/-- Every call that has been applied is noted with its class. -/
theorem InOrder.exists_call (order : state.InOrder setting)
    (settled : state.isSettled = true) (found : state.class? name = some cls)
    (present : cls.isPresent = true) (notJS : cls.kind.isJS = false)
    (applies : state.result.Applies setting.requirement name method) :
    ∃ cause, (method, cause) ∈ cls.calls := by
  have linked := order.valid.follows.classes_eq found
  have noted : state.Meets name (.call method) → ∃ cause, (method, cause) ∈ cls.calls := by
    rintro ⟨record, found', fulfils⟩
    obtain rfl := Option.some.inj (found.symm.trans found')
    exact fulfils present notJS
  cases applies with
  | @required task leaf cls_eq action =>
    subst cls_eq
    exact noted (order.meets settled (order.accounted (.inl (List.mem_append_left _ leaf))) action
      linked)
  | body found' has reached present' own known declares demands =>
    rw [class?_result] at found'
    exact noted (order.meets_owed settled
      (order.valid.owes_body found' has reached present' own known declares demands) rfl linked)
  | noted found' mem =>
    rw [class?_result] at found'
    obtain rfl := Option.some.inj (found.symm.trans found')
    exact ⟨_, mem⟩

/-- A call that has been applied has been dispatched in all classes below with instances. -/
theorem InOrder.dispatches (order : state.InOrder setting)
    (settled : state.isSettled = true) (found : state.class? name = some cls)
    (present : cls.isPresent = true) (notJS : cls.kind.isJS = false)
    (applies : state.result.Applies setting.requirement name method)
    (receiver : state.class? below = some record) (kind : record.kind.isOrdinary = true)
    (created : record.uses.instances = true) (mem : name ∈ record.ancestors) :
    state.Dispatched below method := by
  obtain ⟨cause, noted⟩ := order.exists_call settled found present notJS applies
  obtain ⟨above, found', _, resident⟩ :=
    (order.consistent.created receiver created).above kind mem
  obtain rfl := Option.some.inj (found.symm.trans found')
  have dispatched := order.consistent.dispatched found resident noted
  exact dispatched

end State

/-- Every call that has been applied on a class reaches its target in all classes below that
instances are created of, in whatever order calls and instances have been discovered. -/
theorem analyze_dispatches {allowForwarders : Bool}
    (ends : analyze allowForwarders requirement loader = (.ok analysis, after))
    (found : analysis.class? name = some cls) (present : cls.isPresent = true)
    (notJS : cls.kind.isJS = false) (applies : analysis.Applies requirement name method)
    (receiver : analysis.class? below = some record) (kind : record.kind.isOrdinary = true)
    (created : record.uses.instances = true) (mem : name ∈ record.ancestors) :
    if method.isProxy && allowForwarders then
      analysis.IsReached ⟨below, .publicInstance, method⟩
    else
      (∃ owner, Implementor analysis.class? method below owner ∧
          analysis.IsReached ⟨owner, .publicInstance, method⟩) ∨
        (∀ owner, ¬ Implementor analysis.class? method below owner) ∧
          ((allowForwarders = false ∧ ∃ first,
              (defaultOwnersIn analysis.class? below method).head? = some first ∧
                analysis.IsReached ⟨first, .publicInstance, method⟩) ∨
            defaultOwnersIn analysis.class? below method = [] ∧
              analysis.IsReached ⟨below, .publicInstance, method⟩ ∧
              ∃ cause, .missingMethod ⟨below, .publicInstance, method⟩ cause ∈
                analysis.errors) := by
  have some_class : analysis.classes ≠ ∅ := by
    rintro empty
    rw [Analysis.class?, empty, Std.ExtTreeMap.getElem?_empty] at found
    cases found
  rcases (analyze_cases ends).2 with ⟨_, _, rfl⟩ | ⟨_, empty⟩ | ⟨rooted, runs⟩
  · exact absurd rfl some_class
  · exact absurd empty some_class
  · have fair := @Loader.isFair_settingFor loader allowForwarders requirement rooted
    obtain ⟨state, order, settled, rfl⟩ := runs _ fair
    rw [State.class?_result] at found receiver
    have dispatched := order.dispatches settled found present notJS applies receiver kind
      created mem
    have allow : state.allowForwarders = allowForwarders := order.valid.allow
    have same : state.result.class? = state.class? := funext state.class?_result
    simp only [State.isReached_result, same, ← state.defaultOwners_eq]
    unfold State.Dispatched at dispatched
    rw [allow] at dispatched
    split at dispatched
    · rename_i reflective
      rwa [if_pos reflective]
    · rename_i direct
      rw [if_neg direct]
      cases dispatched with
      | implemented implementor reached => exact .inl ⟨_, implementor, reached⟩
      | default lacks owners bare reached =>
        refine .inr ⟨lacks, .inl ⟨?_, _, by rw [owners]; rfl, reached⟩⟩
        rcases bare with bare | ⟨linked, found', interface⟩
        · exact allow.symm.trans bare
        · obtain rfl := Option.some.inj (receiver.symm.trans found')
          rw [interface] at kind
          cases kind
      | missing lacks owners reached error =>
        obtain ⟨cause, mem⟩ := error
        exact .inr ⟨lacks, .inr ⟨owners, reached, cause, State.mem_errors_result mem⟩⟩

/-- A class and one below it that overrides its method. -/
def overriding : List ClassDecl :=
  [.ofMethods .object .plain [] [],
    .ofMethods ⟨"A"⟩ .plain [.object] [.plain .publicInstance ⟨"m__V"⟩ (some .skip)],
    .ofMethods ⟨"B"⟩ .plain [⟨"A"⟩]
      [.plain .constructor .defaultConstructor (some .skip),
        .plain .publicInstance ⟨"m__V"⟩ (some .skip)]]

/-- The call comes before the instances. -/
theorem analyze_dispatches_overriding :
    ∃ analysis after, analyze true
        (.every [.call "test" ⟨"A"⟩ ⟨"m__V"⟩, .instances "test" ⟨"B"⟩ .defaultConstructor])
        (Loader.ofDecls overriding) = (.ok analysis, after) ∧
      analysis.IsReached ⟨⟨"B"⟩, .publicInstance, ⟨"m__V"⟩⟩ := by
  let requirement : Requirement :=
    .every [.call "test" ⟨"A"⟩ ⟨"m__V"⟩, .instances "test" ⟨"B"⟩ .defaultConstructor]
  have told : (analyze true requirement (Loader.ofDecls overriding)).1.toOption.map
      (fun analysis =>
        ((analysis.class? ⟨"A"⟩).map fun cls => cls.isPresent && !cls.kind.isJS,
          (analysis.class? ⟨"B"⟩).map fun cls => cls.kind.isOrdinary && cls.uses.instances &&
            cls.isBelow ⟨"A"⟩ && cls.hasConcrete ⟨"m__V"⟩)) = some (some true, some true) := by
    decide +kernel
  generalize ends : analyze true requirement (Loader.ofDecls overriding) = outcome at told
  obtain ⟨_ | analysis, after⟩ := outcome
  · cases told
  · obtain ⟨upper, lower⟩ := Prod.mk.inj (Option.some.inj told)
    obtain ⟨cls, found, shape⟩ := Option.map_eq_some_iff.1 upper
    obtain ⟨record, receiver, flags⟩ := Option.map_eq_some_iff.1 lower
    simp only [Bool.and_eq_true, Bool.not_eq_true', ClassRecord.isBelow, decide_eq_true_eq]
      at shape flags
    obtain ⟨⟨⟨kind, created⟩, mem⟩, has⟩ := flags
    have applies : analysis.Applies requirement ⟨"A"⟩ ⟨"m__V"⟩ :=
      .required List.mem_cons_self rfl rfl
    have dispatched := analyze_dispatches ends found shape.1 shape.2 applies receiver kind created
      mem
    rw [if_neg (by decide +kernel)] at dispatched
    have implementor : Implementor analysis.class? ⟨"m__V"⟩ ⟨"B"⟩ ⟨"B"⟩ := .here receiver has
    rcases dispatched with ⟨owner, other, reached⟩ | ⟨lacks, _⟩
    · obtain rfl := implementor.unique other
      exact ⟨analysis, after, rfl, reached⟩
    · exact absurd implementor (lacks _)

end ClassLinker
