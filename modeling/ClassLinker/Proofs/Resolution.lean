import ClassLinker.Proofs.Hierarchy

/-!
# Resolution as a function of what is linked

What implements a public method for the instances of a class depends on the classes that are linked
and on which of them have code for the method. A `Lookup` gives the classes known at some moment,
those of a state, of a result, or of a universe as its summaries declare them (`Universe.classes`).

* `Implementor classes method name owner`: going up the super classes of `name`, `owner` is the
  first class that has code for the method (`State.superImplementor?_eq_some`);
* `defaultOwnersIn` are the interfaces whose default methods no other one overrides, and there is
  one as soon as any interface has code for the method (`defaultOwnersIn_eq_nil`);
* `Implements classes name method owner`: the method of `owner` is what a call reaches.
-/

namespace ClassLinker

/-- The classes known at some moment, by name. -/
abbrev Lookup := ClassName → Option ClassRecord

/-- The class as it has been linked, before anything was done with it. -/
def ClassRecord.fresh (cls : ClassRecord) : ClassRecord :=
  { cls with
    uses := {}
    hasInstances := false
    creators := []
    inhabited := []
    methods := (cls.summary.map (ClassRecord.declaredMethods cls.name)).getD ∅
    calls := [] }

/-- The classes known are linked as the universe tells, each together with its ancestors. -/
structure Follows (world : Universe) (classes : Lookup) : Prop where
  links : ∀ {name cls}, classes name = some cls → world.Links name cls.fresh
  ancestor : ∀ {name cls other}, classes name = some cls → other ∈ cls.ancestors →
    ∃ record, classes other = some record

namespace Universe

variable {world : Universe} {name : ClassName} {cls record : ClassRecord}

theorem Links.fresh_eq (links : world.Links name cls) : cls.fresh = cls := by
  cases links <;> rfl

open Classical in
/-- The linked classes of a universe. -/
noncomputable def classes (world : Universe) : Lookup := fun name =>
  if h : ∃ cls, world.Links name cls then some h.choose else none

theorem classes_eq_some : world.classes name = some cls ↔ world.Links name cls := by
  unfold classes
  constructor
  · intro h
    split at h
    · rename_i found
      cases h
      exact found.choose_spec
    · cases h
  · intro links
    have found : ∃ cls, world.Links name cls := ⟨cls, links⟩
    rw [dif_pos found, found.choose_spec.unique links]

theorem follows_classes (rooted : world.IsRooted) : Follows world world.classes where
  links found := by
    have links := classes_eq_some.1 found
    rwa [links.fresh_eq]
  ancestor found mem := by
    obtain ⟨record, hr, _⟩ := (classes_eq_some.1 found).exists_of_mem rooted mem
    exact ⟨record, classes_eq_some.2 hr⟩

end Universe

variable {world : Universe} {classes others : Lookup} {method : MethodName}
variable {name owner other : ClassName} {cls record : ClassRecord}

namespace Follows

theorem name_eq (follows : Follows world classes) (found : classes name = some cls) :
    cls.name = name :=
  (follows.links found).name_eq

theorem summary_eq (follows : Follows world classes) (found : classes name = some cls) :
    cls.summary = world name :=
  (follows.links found).summary_eq

theorem classes_eq (follows : Follows world classes) (found : classes name = some cls) :
    world.classes name = some cls.fresh :=
  Universe.classes_eq_some.2 (follows.links found)

theorem self_mem (follows : Follows world classes) (rooted : world.IsRooted)
    (found : classes name = some cls) : name ∈ cls.ancestors := by
  have mem := (follows.links found).self_mem rooted
  exact mem

/-- The ancestors of an ancestor are ancestors. -/
theorem ancestors_subset (follows : Follows world classes) (rooted : world.IsRooted)
    (found : classes name = some cls) (mem : other ∈ cls.ancestors)
    (above : classes other = some record) : record.ancestors ⊆ cls.ancestors := by
  obtain ⟨linked, hl, sub⟩ := (follows.links found).exists_of_mem rooted mem
  obtain rfl := hl.unique (follows.links above)
  exact sub

theorem superClass_mem (follows : Follows world classes) (rooted : world.IsRooted)
    (found : classes name = some cls) (extends_ : cls.superClass = some other) :
    other ∈ cls.ancestors := by
  have mem : other ∈ cls.fresh.parents :=
    List.mem_append_left _ (Option.mem_toList.2 extends_)
  have above := (follows.links found).parent_mem rooted mem
  exact above

/-- Going up to the super class, the ancestors become fewer. -/
theorem length_superClass_lt (follows : Follows world classes) (rooted : world.IsRooted)
    (found : classes name = some cls) (extends_ : cls.superClass = some other)
    (above : classes other = some record) : record.ancestors.length < cls.ancestors.length := by
  have links := follows.links found
  have ne : other ≠ name := by
    rintro rfl
    have mem : other ∈ cls.fresh.parents :=
      List.mem_append_left _ (Option.mem_toList.2 extends_)
    rcases links.parent_cases mem with loops | ⟨rfl, ne⟩
    · exact links.not_extends_itself (.single loops)
    · exact ne rfl
  have mem := follows.superClass_mem rooted found extends_
  have shorter := links.length_ancestors_lt rooted (follows.links above) mem ne
  exact shorter

end Follows

/-! ### Implementations in super classes -/

/-- Going up the super classes of a class, the owner is the first that has code for a public
method. -/
inductive Implementor (classes : Lookup) (method : MethodName) : ClassName → ClassName → Prop
  | here {name : ClassName} {cls : ClassRecord} (found : classes name = some cls)
      (has : cls.hasConcrete method = true) : Implementor classes method name name
  | above {name owner : ClassName} {cls : ClassRecord} {parent : ClassName}
      (found : classes name = some cls) (lacks : cls.hasConcrete method = false)
      (extends_ : cls.superClass = some parent) (up : Implementor classes method parent owner) :
      Implementor classes method name owner

namespace Implementor

theorem unique (first : Implementor classes method name owner) :
    Implementor classes method name other → owner = other := by
  induction first with
  | here found has =>
    rintro (⟨_, _⟩ | ⟨found', lacks, _, _⟩)
    · rfl
    · rw [Option.some.inj (found.symm.trans found'), lacks] at has; cases has
  | above found lacks extends_ _ ih =>
    rintro (⟨found', has⟩ | ⟨found', _, extends', up⟩)
    · rw [Option.some.inj (found.symm.trans found'), has] at lacks; cases lacks
    · obtain rfl := Option.some.inj (found.symm.trans found')
      obtain rfl := Option.some.inj (extends_.symm.trans extends')
      exact ih up

theorem has_code (implementor : Implementor classes method name owner) :
    ∃ record, classes owner = some record ∧ record.hasConcrete method = true := by
  induction implementor with
  | here found has => exact ⟨_, found, has⟩
  | above _ _ _ _ ih => exact ih

theorem isSome (implementor : Implementor classes method name owner) :
    ∃ cls, classes name = some cls := by
  cases implementor <;> exact ⟨_, ‹_›⟩

theorem mem_ancestors (follows : Follows world classes) (rooted : world.IsRooted)
    (implementor : Implementor classes method name owner) (found : classes name = some cls) :
    owner ∈ cls.ancestors := by
  induction implementor generalizing cls with
  | here _ _ => exact follows.self_mem rooted found
  | above found' _ extends_ up ih =>
    obtain rfl := Option.some.inj (found.symm.trans found')
    obtain ⟨record, above⟩ := up.isSome
    have mem := follows.superClass_mem rooted found extends_
    exact follows.ancestors_subset rooted found mem above (ih above)

end Implementor

namespace State

variable {state : State}

/-- A search that may go up far enough finds the first implementor. -/
theorem find?_superChainUpTo (follows : Follows world state.class?) (rooted : world.IsRooted)
    (method : MethodName) {steps : Nat} (found : state.class? name = some cls)
    (enough : cls.ancestors.length ≤ steps) :
    ((state.superChainUpTo steps name).find? fun cls => cls.hasConcrete method).map
      ClassRecord.name = some owner ↔ Implementor state.class? method name owner := by
  induction steps generalizing name cls with
  | zero =>
    have := List.length_pos_of_mem (follows.self_mem rooted found)
    omega
  | succ steps ih =>
    simp only [superChainUpTo, found, List.find?_cons]
    cases has : cls.hasConcrete method with
    | true =>
      simp only [Option.map_some, Option.some.injEq, follows.name_eq found]
      constructor
      · rintro rfl; exact .here found has
      · intro implementor; exact (Implementor.here found has).unique implementor
    | false =>
      cases extends_ : cls.superClass with
      | none =>
        simp only [List.find?_nil, Option.map_none, reduceCtorEq, false_iff]
        rintro (⟨found', has'⟩ | ⟨found', _, extends', _⟩) <;>
          obtain rfl := Option.some.inj (found.symm.trans found')
        · rw [has] at has'; cases has'
        · rw [extends_] at extends'; cases extends'
      | some parent =>
        obtain ⟨record, above⟩ :=
          follows.ancestor found (follows.superClass_mem rooted found extends_)
        have shorter := follows.length_superClass_lt rooted found extends_ above
        rw [ih above (by omega)]
        constructor
        · exact fun up => .above found has extends_ up
        · rintro (⟨found', has'⟩ | ⟨found', _, extends', up⟩) <;>
            obtain rfl := Option.some.inj (found.symm.trans found')
          · rw [has] at has'; cases has'
          · obtain rfl := Option.some.inj (extends_.symm.trans extends')
            exact up

/-- No class has more ancestors than there are classes in the table. -/
theorem length_ancestors_le (follows : Follows world state.class?)
    (found : state.class? name = some cls) : cls.ancestors.length ≤ state.table.size := by
  have sub : cls.ancestors ⊆ state.table.keys := by
    intro other mem
    obtain ⟨record, hr⟩ := follows.ancestor found mem
    rw [Std.ExtTreeMap.mem_keys, Std.ExtTreeMap.mem_iff_isSome_getElem?]
    unfold class? status? at hr
    cases h : state.table[other]? with
    | none => rw [h] at hr; cases hr
    | some _ => rfl
  rw [← Std.ExtTreeMap.length_keys]
  exact (List.subperm_of_subset (follows.links found).nodup_ancestors sub).length_le

/-- The search up the super classes of a linked class finds the first implementor. -/
theorem superImplementor?_eq_some (follows : Follows world state.class?)
    (rooted : world.IsRooted) (found : state.class? name = some cls) :
    state.superImplementor? name method = some owner ↔
      Implementor state.class? method name owner :=
  find?_superChainUpTo follows rooted method found (length_ancestors_le follows found)

theorem superImplementor?_eq_none (follows : Follows world state.class?)
    (rooted : world.IsRooted) (found : state.class? name = some cls) :
    state.superImplementor? name method = none ↔
      ∀ owner, ¬ Implementor state.class? method name owner := by
  rw [Option.eq_none_iff_forall_ne_some]
  exact forall_congr' fun owner =>
    not_congr (superImplementor?_eq_some follows rooted found)

end State

/-! ### Default methods -/

/-- The linked ancestors of a class that are interfaces and have code for a public method. -/
def candidatesIn (classes : Lookup) (name : ClassName) (method : MethodName) :
    List ClassRecord :=
  (((classes name).map ClassRecord.ancestors).getD []).filterMap classes |>.filter fun cls =>
    cls.kind = .interface && cls.hasConcrete method

/-- The interfaces among the ancestors of a class, in order, whose default method of a given name
no other one overrides. -/
def defaultOwnersIn (classes : Lookup) (name : ClassName) (method : MethodName) :
    List ClassName :=
  (State.notOverridden (candidatesIn classes name method)).map ClassRecord.name

theorem State.defaultOwners_eq (state : State) (name : ClassName) (method : MethodName) :
    state.defaultOwners name method = defaultOwnersIn state.class? name method := by
  unfold State.defaultOwners defaultOwnersIn State.defaultCandidates candidatesIn
    State.ancestorRecords
  cases state.class? name <;> rfl

theorem mem_candidatesIn (found : classes name = some cls) :
    record ∈ candidatesIn classes name method ↔
      ∃ interface ∈ cls.ancestors, classes interface = some record ∧ record.kind = .interface ∧
        record.hasConcrete method = true := by
  simp only [candidatesIn, found, Option.map_some, Option.getD_some, List.mem_filter,
    List.mem_filterMap, Bool.and_eq_true, decide_eq_true_eq]
  constructor
  · rintro ⟨⟨interface, mem, h⟩, h'⟩; exact ⟨interface, mem, h, h'⟩
  · rintro ⟨interface, mem, h, h'⟩; exact ⟨⟨interface, mem, h⟩, h'⟩

/-- The owners of default methods are interfaces above the class that have code. -/
theorem exists_of_mem_defaultOwnersIn (follows : Follows world classes)
    (found : classes name = some cls) (mem : owner ∈ defaultOwnersIn classes name method) :
    owner ∈ cls.ancestors ∧ ∃ record, classes owner = some record ∧ record.kind = .interface ∧
      record.hasConcrete method = true := by
  obtain ⟨record, chosen, rfl⟩ := List.mem_map.1 mem
  obtain ⟨interface, above, found', h⟩ :=
    (mem_candidatesIn found).1 (List.mem_of_mem_filter chosen)
  rw [follows.name_eq found']
  exact ⟨above, record, found', h⟩

/-- The first of the default methods is code of an interface above the class. -/
theorem State.exists_of_defaultOwners {state : State} {first : ClassName} {others : List ClassName}
    (follows : Follows world state.class?) (found : state.class? name = some cls)
    (owners : state.defaultOwners name method = first :: others) :
    first ∈ cls.ancestors ∧ ∃ record, state.class? first = some record ∧
      record.kind = .interface ∧ record.hasConcrete method = true := by
  refine exists_of_mem_defaultOwnersIn follows found ?_
  rw [← state.defaultOwners_eq, owners]
  exact List.mem_cons_self

/-- Among some interfaces, one with the most ancestors is overridden by none. -/
theorem notOverridden_ne_nil (follows : Follows world classes) (rooted : world.IsRooted)
    {candidates : List ClassRecord}
    (known : ∀ record ∈ candidates, classes record.name = some record)
    (nonempty : candidates ≠ []) : State.notOverridden candidates ≠ [] := by
  obtain ⟨deepest, mem, most⟩ :
      ∃ deepest ∈ candidates, ∀ other ∈ candidates,
        other.ancestors.length ≤ deepest.ancestors.length := by
    clear known
    induction candidates with
    | nil => exact absurd rfl nonempty
    | cons first rest ih =>
      rcases eq_or_ne rest [] with rfl | ne
      · refine ⟨first, List.mem_cons_self, fun other h => ?_⟩
        obtain rfl := List.mem_singleton.1 h
        exact Nat.le_refl _
      · obtain ⟨deepest, mem, most⟩ := ih ne
        rcases Nat.le_total first.ancestors.length deepest.ancestors.length with h | h
        · refine ⟨deepest, List.mem_cons_of_mem _ mem, fun other ho => ?_⟩
          rcases List.mem_cons.1 ho with rfl | ho
          · exact h
          · exact most other ho
        · refine ⟨first, List.mem_cons_self, fun other ho => ?_⟩
          rcases List.mem_cons.1 ho with rfl | ho
          · exact Nat.le_refl _
          · exact Nat.le_trans (most other ho) h
  refine List.ne_nil_of_mem (a := deepest) (List.mem_filter.2 ⟨mem, ?_⟩)
  simp only [Bool.not_eq_true', List.any_eq_false, Bool.and_eq_true, decide_eq_true_eq, not_and,
    Bool.not_eq_true]
  intro other ho ne
  by_contra below
  have below : deepest.name ∈ other.ancestors := by
    simpa [ClassRecord.isBelow] using below
  have shorter := (follows.links (known other ho)).length_ancestors_lt rooted
    (follows.links (known deepest mem)) below ne.symm
  exact absurd (most other ho) (Nat.not_le.2 shorter)

/-- There is a default method as soon as some interface above the class has code. -/
theorem defaultOwnersIn_eq_nil (follows : Follows world classes) (rooted : world.IsRooted)
    (found : classes name = some cls) :
    defaultOwnersIn classes name method = [] ↔
      ∀ interface ∈ cls.ancestors, ∀ record, classes interface = some record →
        record.kind = .interface → record.hasConcrete method = false := by
  have known : ∀ record ∈ candidatesIn classes name method,
      classes record.name = some record := by
    intro record mem
    obtain ⟨interface, _, found', _⟩ := (mem_candidatesIn found).1 mem
    rwa [follows.name_eq found']
  constructor
  · intro empty interface mem record found' kind
    by_contra has
    have candidate : record ∈ candidatesIn classes name method :=
      (mem_candidatesIn found).2 ⟨interface, mem, found', kind, by simpa using has⟩
    refine notOverridden_ne_nil follows rooted known (List.ne_nil_of_mem candidate) ?_
    exact List.map_eq_nil_iff.1 empty
  · intro none_has
    have empty : candidatesIn classes name method = [] := by
      refine List.eq_nil_iff_forall_not_mem.2 fun record mem => ?_
      obtain ⟨interface, above, found', kind, has⟩ := (mem_candidatesIn found).1 mem
      rw [none_has interface above record found' kind] at has
      cases has
    rw [defaultOwnersIn, empty]
    rfl

/-- If no interface above a class has code, then none above its ancestors has. -/
theorem defaultOwnersIn_eq_nil_of_mem (follows : Follows world classes) (rooted : world.IsRooted)
    (found : classes name = some cls) (mem : other ∈ cls.ancestors)
    (empty : defaultOwnersIn classes name method = []) :
    defaultOwnersIn classes other method = [] := by
  obtain ⟨record, above⟩ := follows.ancestor found mem
  rw [defaultOwnersIn_eq_nil follows rooted above]
  intro interface hi
  exact (defaultOwnersIn_eq_nil follows rooted found).1 empty interface
    (follows.ancestors_subset rooted found mem above hi)

/-! ### What a call reaches -/

/-- The method of the owner is what a call on instances of exactly the class reaches: the first
implementation in its super classes, and failing that the first default method. -/
def Implements (classes : Lookup) (name : ClassName) (method : MethodName) (owner : ClassName) :
    Prop :=
  Implementor classes method name owner ∨
    (∀ owner, ¬ Implementor classes method name owner) ∧
      (defaultOwnersIn classes name method).head? = some owner

theorem Implements.unique (first : Implements classes name method owner)
    (second : Implements classes name method other) : owner = other := by
  rcases first with first | ⟨lacks, first⟩ <;> rcases second with second | ⟨lacks', second⟩
  · exact first.unique second
  · exact absurd first (lacks' _)
  · exact absurd second (lacks _)
  · exact Option.some.inj (first.symm.trans second)

/-- No class above the given one has got or lost code for a method since it was linked. -/
def Unextended (classes : Lookup) (name : ClassName) (method : MethodName) : Prop :=
  ∀ cls, classes name = some cls → ∀ other ∈ cls.ancestors, ∀ record, classes other = some record →
    record.hasConcrete method = record.fresh.hasConcrete method

theorem Implementor.of_declared (follows : Follows world classes) (rooted : world.IsRooted)
    (declared : Implementor world.classes method name owner) (found : classes name = some cls)
    (same : Unextended classes name method) : Implementor classes method name owner := by
  induction declared generalizing cls with
  | @here name _ found' has =>
    obtain rfl := Option.some.inj (found'.symm.trans (follows.classes_eq found))
    exact .here found (by rw [same cls found name (follows.self_mem rooted found) cls found, has])
  | @above name owner _ parent found' lacks extends_ up ih =>
    obtain rfl := Option.some.inj (found'.symm.trans (follows.classes_eq found))
    have mem : parent ∈ cls.ancestors := follows.superClass_mem rooted found extends_
    obtain ⟨record, above⟩ := follows.ancestor found mem
    refine .above found ?_ extends_ (ih above ?_)
    · rw [same cls found name (follows.self_mem rooted found) cls found, lacks]
    · intro record' above' other ho
      obtain rfl := Option.some.inj (above.symm.trans above')
      exact same cls found other (follows.ancestors_subset rooted found mem above ho)

theorem Implementor.to_declared (follows : Follows world classes) (rooted : world.IsRooted)
    (implementor : Implementor classes method name owner) (same : Unextended classes name method) :
    Implementor world.classes method name owner := by
  induction implementor with
  | @here name cls found has =>
    refine .here (follows.classes_eq found) ?_
    rw [← same cls found name (follows.self_mem rooted found) cls found, has]
  | @above name owner cls parent found lacks extends_ up ih =>
    have mem : parent ∈ cls.ancestors := follows.superClass_mem rooted found extends_
    refine .above (follows.classes_eq found) ?_ extends_ (ih ?_)
    · rw [← same cls found name (follows.self_mem rooted found) cls found, lacks]
    · intro record above other ho
      exact same cls found other (follows.ancestors_subset rooted found mem above ho)

/-- As long as interfaces keep the methods that they declare, so do the default methods. -/
theorem defaultOwnersIn_eq_declared (follows : Follows world classes)
    (found : classes name = some cls)
    (same : ∀ other record, classes other = some record → record.kind = .interface →
      record.hasConcrete method = record.fresh.hasConcrete method) :
    defaultOwnersIn classes name method = defaultOwnersIn world.classes name method := by
  -- The candidates are the same classes, in their fresh form.
  have above : ∀ names : List ClassName, (∀ other ∈ names, ∃ record, classes other = some record) →
      (names.filterMap world.classes).filter
          (fun cls => cls.kind = .interface && cls.hasConcrete method) =
        ((names.filterMap classes).filter
          fun cls => cls.kind = .interface && cls.hasConcrete method).map ClassRecord.fresh := by
    intro names known
    induction names with
    | nil => rfl
    | cons other names ih =>
      obtain ⟨record, hr⟩ := known other List.mem_cons_self
      have same_test : (record.fresh.kind = .interface && record.fresh.hasConcrete method) =
          (record.kind = .interface && record.hasConcrete method) := by
        by_cases kind : record.kind = .interface
        · rw [same other record hr kind]; rfl
        · have : record.fresh.kind ≠ .interface := kind
          simp [kind, this]
      simp only [List.filterMap_cons, hr, follows.classes_eq hr, List.filter_cons, same_test]
      split
      · rw [List.map_cons, ih fun other ho => known other (List.mem_cons_of_mem _ ho)]
      · exact ih fun other ho => known other (List.mem_cons_of_mem _ ho)
  have candidates : candidatesIn world.classes name method =
      (candidatesIn classes name method).map ClassRecord.fresh := by
    unfold candidatesIn
    rw [follows.classes_eq found, found]
    exact above _ fun other mem => follows.ancestor found mem
  rw [defaultOwnersIn, defaultOwnersIn, candidates, State.notOverridden, State.notOverridden,
    List.filter_map, List.map_map]
  congr 1
  refine List.filter_congr fun record _ => ?_
  rw [Function.comp, List.any_map]
  rfl

end ClassLinker
