import ClassLinker.Analysis.Run
import Mathlib.Data.List.Perm.Subperm
import Mathlib.Logic.Relation
import Mathlib.Tactic.Choose

/-!
# The hierarchy of a universe

Linking a class depends on nothing but the summaries of the class and of everything above it.
`Universe.Links world name cls` says that the class can be linked and how: `cls` is what the
analysis knows of it at that moment, with its parents checked and its ancestors computed. There is
such a record exactly for the classes that neither lie on an inheritance cycle nor inherit from one
(`Links.acc`).

* `ClassSummary.linkedAs` computes the record from those of the parents, and
  `ClassSummary.linkErrors` tells what is wrong with them;
* `Links.unique`: a class is linked in one way only;
* `Links.exists_of_mem` and `Links.eq_of_mem`: the ancestors of a class are linked, and no two
  classes are ancestors of each other;
* `Links.kind_of_mem`: above an ordinary class there are only plain classes and interfaces.
-/

namespace ClassLinker

/-- What can be loaded: the summary of every class that exists. -/
abbrev Universe := ClassName → Option ClassSummary

/-- The parents that a class is linked with, the super class first. -/
def ClassRecord.parents (cls : ClassRecord) : List ClassName :=
  cls.superClass.toList ++ cls.interfaces

/-! ### Linking a class, given how its parents are linked -/

namespace ClassSummary

variable (summary : ClassSummary) (name : ClassName) (parents : ClassName → ClassRecord)

/-- The super class of a class. One of a wrong kind is given up, in favour of the root class if
the class is an ordinary one. -/
def keptSuperClass : Option ClassName :=
  summary.superClass.bind fun parent =>
    if !(parents parent).isPresent || summary.kind.mayExtend parent (parents parent).kind then
      some parent
    else if summary.kind.isOrdinary && name ≠ .object then some .object
    else none

/-- The interfaces of a class, without those of a wrong kind. -/
def keptInterfaces : List ClassName :=
  summary.interfaces.filter fun interface =>
    !(parents interface).isPresent || (parents interface).kind = summary.kind.implementedKind

/-- The parents of a class after the check, the super class first. -/
def keptParents : List ClassName :=
  (summary.keptSuperClass name parents).toList ++ summary.keptInterfaces parents

/-- The ancestors that a class has through one of its parents. -/
def ancestorsThrough (parent : ClassName) : List ClassName :=
  if parent = .object then [.object] else (parents parent).ancestors

/-- The class as it is linked. -/
def linkedAs : ClassRecord :=
  { ClassRecord.ofSummary name summary with
    superClass := summary.keptSuperClass name parents
    interfaces := summary.keptInterfaces parents
    ancestors := ancestorsOf name ((summary.keptParents name parents).map
      (ancestorsThrough parents)) }

/-- What is wrong with the super class that a class declares, or with declaring none. -/
def superClassErrors : List Diagnostic :=
  match summary.superClass with
  | none =>
    if summary.kind.needsSuperClass && name ≠ .object then
      [.missingSuperClass name summary.kind (.cls name)]
    else []
  | some parent =>
    if !(parents parent).isPresent then [.missingClass parent (.cls name)]
    else if summary.kind.mayExtend parent (parents parent).kind then []
    else [.invalidSuperClass parent (parents parent).kind name summary.kind (.cls name)]

/-- What is wrong with the interfaces that a class declares. -/
def interfaceErrors : List Diagnostic :=
  summary.interfaces.flatMap fun interface =>
    if !(parents interface).isPresent then [.missingClass interface (.cls name)]
    else if (parents interface).kind = summary.kind.implementedKind then []
    else [.invalidInterface interface (parents interface).kind name summary.kind (.cls name)]

/-- The errors that linking a class raises about its parents, in order. -/
def linkErrors : List Diagnostic :=
  summary.superClassErrors name parents ++ summary.interfaceErrors name parents

variable {summary name parents}

/-- A kept parent is a declared one, unless it is the root class in place of a wrong one. -/
theorem mem_parents_of_kept {parent : ClassName}
    (kept : parent ∈ summary.keptParents name parents) :
    parent ∈ summary.parents ∨ (parent = .object ∧ name ≠ .object) := by
  rcases List.mem_append.1 kept with h | h
  · obtain ⟨declared, hd, h⟩ := Option.bind_eq_some_iff.1 (Option.mem_toList.1 h)
    have declares : declared ∈ summary.parents := by simp [ClassSummary.parents, hd]
    split at h
    · cases h; exact .inl declares
    · split at h
      · rename_i ordinary
        cases h
        exact .inr ⟨rfl, by simpa using (Bool.and_eq_true_iff.1 ordinary).2⟩
      · cases h
  · exact .inl (List.mem_append_right _ (List.mem_of_mem_filter h))

/-- How a class is linked depends on its declared parents alone. -/
theorem linkedAs_congr {others : ClassName → ClassRecord}
    (same : ∀ parent ∈ summary.parents, parents parent = others parent) :
    summary.linkedAs name parents = summary.linkedAs name others := by
  have super_eq : summary.keptSuperClass name parents = summary.keptSuperClass name others := by
    unfold keptSuperClass
    cases declared : summary.superClass with
    | none => rfl
    | some parent =>
      simp only [Option.bind_some]
      rw [same parent (by simp [ClassSummary.parents, declared])]
  have interfaces_eq : summary.keptInterfaces parents = summary.keptInterfaces others := by
    refine List.filter_congr fun interface mem => ?_
    rw [same interface (List.mem_append_right _ mem)]
  have parents_eq : summary.keptParents name parents = summary.keptParents name others := by
    rw [keptParents, keptParents, super_eq, interfaces_eq]
  have through : (summary.keptParents name parents).map (ancestorsThrough parents) =
      (summary.keptParents name others).map (ancestorsThrough others) := by
    rw [← parents_eq]
    refine List.map_congr_left fun parent kept => ?_
    unfold ancestorsThrough
    split
    · rfl
    · rename_i ne
      rcases mem_parents_of_kept kept with h | h
      · rw [same parent h]
      · exact absurd h.1 ne
  rw [linkedAs, linkedAs, super_eq, interfaces_eq, through]

/-- So do the errors. -/
theorem linkErrors_congr {others : ClassName → ClassRecord}
    (same : ∀ parent ∈ summary.parents, parents parent = others parent) :
    summary.linkErrors name parents = summary.linkErrors name others := by
  have super_eq : summary.superClassErrors name parents = summary.superClassErrors name others := by
    unfold superClassErrors
    cases declared : summary.superClass with
    | none => rfl
    | some parent =>
      simp only [same parent (by simp [ClassSummary.parents, declared])]
  have interfaces_eq : summary.interfaceErrors name parents =
      summary.interfaceErrors name others := by
    unfold interfaceErrors
    refine List.flatMap_congr fun interface mem => ?_
    rw [same interface (List.mem_append_right _ mem)]
  rw [linkErrors, linkErrors, super_eq, interfaces_eq]

end ClassSummary

/-- A root class has no parents. -/
theorem ClassSummary.parents_of_isRoot {root : ClassSummary} (isRoot : root.isRoot = true) :
    root.parents = [] := by
  have shape : root.kind = .plain ∧ root.superClass = none ∧ root.interfaces = [] := by
    simpa [ClassSummary.isRoot] using isRoot
  simp [ClassSummary.parents, shape]

/-! ### The linked classes of a universe -/

namespace Universe

/-- The class can be linked, and this is what is known of it then. -/
inductive Links (world : Universe) : ClassName → ClassRecord → Prop
  /-- A class that does not exist can always be linked. -/
  | absent {name : ClassName} (unknown : world name = none) : Links world name (.absent name)
  | present {name : ClassName} {summary : ClassSummary} (parents : ClassName → ClassRecord)
      (known : world name = some summary)
      (linked : ∀ parent ∈ summary.parents, Links world parent (parents parent)) :
      Links world name (summary.linkedAs name parents)

/-- The root class is there and has no parents. -/
def IsRooted (world : Universe) : Prop :=
  ∃ root, world .object = some root ∧ root.isRoot = true

/-- The first class names the second one as a parent. -/
def Extends (world : Universe) (child parent : ClassName) : Prop :=
  ∃ summary, world child = some summary ∧ parent ∈ summary.parents

/-- The classes form an inheritance cycle: they are distinct, each names the next one as a parent,
and the last one names the first. -/
structure IsCycle (world : Universe) (first : ClassName) (rest : List ClassName) : Prop where
  nodup : (first :: rest).Nodup
  chain : (first :: (rest ++ [first])).IsChain world.Extends

variable {world : Universe} {name other : ClassName} {cls record : ClassRecord}

theorem extends_of_mem_parents {child parent : ClassName}
    (mem : parent ∈ ((world child).map ClassSummary.parents).getD []) :
    world.Extends child parent := by
  cases known : world child with
  | none => rw [known] at mem; cases mem
  | some summary => rw [known] at mem; exact ⟨summary, known, mem⟩

/-- From any class of a cycle there is a way up to any other. -/
theorem IsCycle.leads {first : ClassName} {rest : List ClassName}
    (cycle : world.IsCycle first rest) (mem : name ∈ first :: rest) (mem' : other ∈ first :: rest) :
    Relation.TransGen world.Extends name other := by
  have generated : (first :: (rest ++ [first])).Pairwise (Relation.TransGen world.Extends) :=
    (cycle.chain.imp fun _ _ => Relation.TransGen.single).pairwise
  have down : ∀ {name}, name ∈ first :: rest → Relation.TransGen world.Extends name first := by
    intro name mem
    have pairs : ((first :: rest) ++ [first]).Pairwise (Relation.TransGen world.Extends) :=
      generated
    exact (List.pairwise_append.1 pairs).2.2 name mem first (List.mem_singleton_self _)
  have up : ∀ {name}, name ∈ first :: rest → Relation.TransGen world.Extends first name := by
    intro name mem
    rcases List.mem_cons.1 mem with rfl | mem
    · exact down List.mem_cons_self
    · exact (List.pairwise_cons.1 generated).1 name (List.mem_append_left _ mem)
  exact (down mem).trans (up mem')

namespace Links

/-- A class is linked in one way only. -/
theorem unique (first : world.Links name cls) : world.Links name record → cls = record := by
  induction first generalizing record with
  | absent unknown =>
    intro second
    cases second with
    | absent _ => rfl
    | present _ known _ => rw [unknown] at known; cases known
  | present parents known _ ih =>
    intro second
    cases second with
    | absent unknown => rw [unknown] at known; cases known
    | present others known' linked' =>
      obtain rfl := Option.some.inj (known.symm.trans known')
      exact ClassSummary.linkedAs_congr fun parent mem => ih parent mem (linked' parent mem)

theorem name_eq (links : world.Links name cls) : cls.name = name := by
  cases links <;> rfl

theorem summary_eq (links : world.Links name cls) : cls.summary = world name := by
  cases links with
  | absent unknown => rw [unknown]; rfl
  | present _ known _ => rw [known]; rfl

/-- A class that exists is linked as one of its kind. -/
theorem kind_eq (links : world.Links name cls) {summary : ClassSummary}
    (known : world name = some summary) : cls.kind = summary.kind := by
  cases links with
  | absent unknown => rw [unknown] at known; cases known
  | present _ known' _ =>
    obtain rfl := Option.some.inj (known.symm.trans known')
    rfl

/-- A linked class neither lies on an inheritance cycle nor inherits from one. -/
theorem acc (links : world.Links name cls) : Acc (fun parent child => world.Extends child parent)
    name := by
  induction links with
  | absent unknown =>
    constructor
    rintro parent ⟨summary, known, _⟩
    rw [unknown] at known; cases known
  | present parents known _ ih =>
    constructor
    rintro parent ⟨summary, known', mem⟩
    obtain rfl := Option.some.inj (known.symm.trans known')
    exact ih parent mem

/-- No linked class inherits from itself. -/
theorem not_extends_itself (links : world.Links name cls) :
    ¬ Relation.TransGen world.Extends name name := by
  have below : Acc (Relation.TransGen fun parent child => world.Extends child parent) name :=
    links.acc.transGen
  intro cycle
  clear links
  induction below with
  | intro _ _ ih => exact ih _ (Relation.transGen_swap.2 cycle) cycle

/-- The classes of a cycle cannot be linked. -/
theorem not_of_cycle {first : ClassName} {rest : List ClassName}
    (cycle : world.IsCycle first rest) (mem : name ∈ first :: rest) : ¬ world.Links name cls :=
  fun links => links.not_extends_itself (cycle.leads mem mem)

/-- A class that does not exist inherits from nothing. -/
theorem alone (links : world.Links name cls) (missing : cls.isPresent = false) :
    cls.kind = .plain ∧ cls.superClass = none ∧ cls.ancestors = [name] := by
  cases links with
  | absent => exact ⟨rfl, rfl, rfl⟩
  | present => cases missing

/-- The root class is linked without parents. -/
theorem object_eq (rooted : world.IsRooted) (links : world.Links .object cls) :
    cls.kind = .plain ∧ cls.parents = [] ∧ cls.ancestors = [.object] ∧ cls.isPresent = true := by
  obtain ⟨root, known, isRoot⟩ := rooted
  have shape : root.kind = .plain ∧ root.superClass = none ∧ root.interfaces = [] := by
    simpa [ClassSummary.isRoot] using isRoot
  cases links with
  | absent unknown => rw [unknown] at known; cases known
  | present parents known' _ =>
    obtain rfl := Option.some.inj (known.symm.trans known')
    have no_super : root.keptSuperClass .object parents = none := by
      simp [ClassSummary.keptSuperClass, shape.2.1]
    have no_interfaces : root.keptInterfaces parents = [] := by
      simp [ClassSummary.keptInterfaces, shape.2.2]
    refine ⟨shape.1, ?_, ?_, rfl⟩
    · simp [ClassSummary.linkedAs, ClassRecord.parents, no_super, no_interfaces]
    · simp [ClassSummary.linkedAs, ClassSummary.keptParents, no_super, no_interfaces, ancestorsOf,
        List.eraseDups_cons]

/-- A parent that a class is linked with is a declared one, or the root class in place of one. -/
theorem parent_cases (links : world.Links name cls) (mem : other ∈ cls.parents) :
    world.Extends name other ∨ (other = .object ∧ name ≠ .object) := by
  cases links with
  | absent _ => cases mem
  | @present _ summary parents known _ =>
    exact (ClassSummary.mem_parents_of_kept mem).imp_left fun declared => ⟨summary, known, declared⟩

/-- Facts about linked classes are proved from those about their parents. -/
theorem induct (rooted : world.IsRooted)
    {motive : (name : ClassName) → (cls : ClassRecord) → world.Links name cls → Prop}
    (step : ∀ name cls (links : world.Links name cls),
      (∀ parent ∈ cls.parents, ∀ record (above : world.Links parent record),
        motive parent record above) → motive name cls links)
    (links : world.Links name cls) : motive name cls links := by
  -- The root class may be a parent that no summary declares, so it comes first.
  have root : ∀ record (hr : world.Links .object record), motive .object record hr :=
    fun record hr => step _ _ hr fun parent mem => by
      rw [(hr.object_eq rooted).2.1] at mem; cases mem
  induction links with
  | absent unknown => exact step _ _ (.absent unknown) fun parent mem => by cases mem
  | @present name summary parents known linked ih =>
    refine step _ _ (.present parents known linked) fun parent mem record hr => ?_
    rcases ClassSummary.mem_parents_of_kept mem with declared | ⟨rfl, _⟩
    · obtain rfl := hr.unique (linked parent declared)
      exact ih parent declared
    · exact root record hr

/-! ### Ancestors -/

/-- The root class can be linked. -/
theorem exists_object (rooted : world.IsRooted) : ∃ record, world.Links .object record := by
  obtain ⟨root, known, isRoot⟩ := rooted
  exact ⟨_, .present .absent known fun parent mem => by
    rw [ClassSummary.parents_of_isRoot isRoot] at mem; cases mem⟩

theorem exists_parent (rooted : world.IsRooted) (links : world.Links name cls)
    (mem : other ∈ cls.parents) : ∃ record, world.Links other record := by
  cases links with
  | absent _ => cases mem
  | @present _ summary parents known linked =>
    rcases ClassSummary.mem_parents_of_kept mem with declared | ⟨rfl, _⟩
    · exact ⟨_, linked other declared⟩
    · exact exists_object rooted

/-- The ancestors of a class are the class itself and those of its parents. -/
theorem ancestors_eq (rooted : world.IsRooted) (links : world.Links name cls)
    (parents : ClassName → ClassRecord)
    (linked : ∀ parent ∈ cls.parents, world.Links parent (parents parent)) :
    cls.ancestors =
      ancestorsOf name (cls.parents.map fun parent => (parents parent).ancestors) := by
  cases links with
  | absent _ => rfl
  | @present _ summary others known linked' =>
    show ancestorsOf name _ = _
    congr 1
    refine List.map_congr_left fun parent mem => ?_
    unfold ClassSummary.ancestorsThrough
    split
    · rename_i is_object
      subst is_object
      exact ((linked _ mem).object_eq rooted).2.2.1.symm
    · rename_i ne
      rcases ClassSummary.mem_parents_of_kept mem with declared | ⟨h, _⟩
      · rw [(linked' parent declared).unique (linked parent mem)]
      · exact absurd h ne

theorem mem_ancestors (rooted : world.IsRooted) (links : world.Links name cls) :
    other ∈ cls.ancestors ↔
      other = name ∨ ∃ parent ∈ cls.parents, ∃ record, world.Links parent record ∧
        other ∈ record.ancestors := by
  have some_record : ∀ parent, ∃ record, parent ∈ cls.parents → world.Links parent record := by
    intro parent
    by_cases mem : parent ∈ cls.parents
    · obtain ⟨record, hr⟩ := links.exists_parent rooted mem
      exact ⟨record, fun _ => hr⟩
    · exact ⟨cls, fun h => absurd h mem⟩
  choose parents linked using some_record
  rw [links.ancestors_eq rooted parents linked]
  simp only [ancestorsOf, List.mem_eraseDups, List.mem_cons, List.mem_flatten, List.mem_map,
    exists_exists_and_eq_and]
  refine or_congr_right (exists_congr fun parent => and_congr_right fun mem => ?_)
  constructor
  · exact fun h => ⟨_, linked parent mem, h⟩
  · rintro ⟨record, hr, h⟩
    rwa [(linked parent mem).unique hr]

theorem self_mem (rooted : world.IsRooted) (links : world.Links name cls) :
    name ∈ cls.ancestors :=
  (links.mem_ancestors rooted).2 (.inl rfl)

theorem parent_mem (rooted : world.IsRooted) (links : world.Links name cls)
    (mem : other ∈ cls.parents) : other ∈ cls.ancestors := by
  obtain ⟨record, hr⟩ := links.exists_parent rooted mem
  exact (links.mem_ancestors rooted).2 (.inr ⟨other, mem, record, hr, hr.self_mem rooted⟩)

theorem nodup_ancestors (links : world.Links name cls) : cls.ancestors.Nodup := by
  cases links with
  | absent _ => exact List.pairwise_singleton _ _
  | present _ _ _ => exact nodup_eraseDups _

/-- Every ancestor is linked, and its ancestors are ancestors too. -/
theorem exists_of_mem (rooted : world.IsRooted) (links : world.Links name cls)
    (mem : other ∈ cls.ancestors) :
    ∃ record, world.Links other record ∧ record.ancestors ⊆ cls.ancestors := by
  induction name, cls, links using induct rooted with
  | step name cls links ih =>
    rcases (links.mem_ancestors rooted).1 mem with rfl | ⟨parent, hp, above, ha, mem⟩
    · exact ⟨cls, links, fun _ h => h⟩
    · obtain ⟨record, hr, sub⟩ := ih parent hp above ha mem
      refine ⟨record, hr, fun further h => ?_⟩
      exact (links.mem_ancestors rooted).2 (.inr ⟨parent, hp, above, ha, sub h⟩)

/-- An ancestor is the class itself, the root class, or reached through declared parents. -/
theorem extends_of_mem (rooted : world.IsRooted) (links : world.Links name cls)
    (mem : other ∈ cls.ancestors) :
    other = name ∨ other = .object ∨ Relation.TransGen world.Extends name other := by
  induction name, cls, links using induct rooted with
  | step name cls links ih =>
    rcases (links.mem_ancestors rooted).1 mem with rfl | ⟨parent, hp, above, ha, mem⟩
    · exact .inl rfl
    · rcases links.parent_cases hp with declared | ⟨rfl, _⟩
      · rcases ih parent hp above ha mem with rfl | h | h
        · exact .inr (.inr (.single declared))
        · exact .inr (.inl h)
        · exact .inr (.inr (.head declared h))
      · rw [(ha.object_eq rooted).2.2.1] at mem
        exact .inr (.inl (List.mem_singleton.1 mem))

/-- Two classes that are ancestors of one another are the same. -/
theorem eq_of_mem (rooted : world.IsRooted) (links : world.Links name cls)
    (others : world.Links other record) (up : other ∈ cls.ancestors)
    (down : name ∈ record.ancestors) : other = name := by
  -- Going up from one to the other and back would be a cycle, unless one of them is the root.
  rcases links.extends_of_mem rooted up with h | rfl | h
  · exact h
  · rw [(others.object_eq rooted).2.2.1] at down
    exact (List.mem_singleton.1 down).symm
  · rcases others.extends_of_mem rooted down with h' | rfl | h'
    · exact h'.symm
    · rw [(links.object_eq rooted).2.2.1] at up
      exact List.mem_singleton.1 up
    · exact absurd (h.trans h') links.not_extends_itself

/-- A proper ancestor has fewer ancestors. -/
theorem length_ancestors_lt (rooted : world.IsRooted) (links : world.Links name cls)
    (others : world.Links other record) (mem : other ∈ cls.ancestors) (ne : other ≠ name) :
    record.ancestors.length < cls.ancestors.length := by
  obtain ⟨record', hr, sub⟩ := links.exists_of_mem rooted mem
  obtain rfl := hr.unique others
  -- All ancestors of the upper class are ancestors of the lower one, and it is one more.
  have not_below : name ∉ record'.ancestors := fun h => ne (links.eq_of_mem rooted others mem h)
  have longer : (name :: record'.ancestors).Subperm cls.ancestors :=
    List.subperm_of_subset (List.nodup_cons.2 ⟨not_below, others.nodup_ancestors⟩)
      (List.cons_subset.2 ⟨links.self_mem rooted, sub⟩)
  exact longer.length_le

/-! ### Kinds of ancestors -/

/-- The interfaces that a class keeps are in the order in which it declares them. -/
theorem interfaces_sublist (links : world.Links name cls) {summary : ClassSummary}
    (known : world name = some summary) : cls.interfaces.Sublist summary.interfaces := by
  cases links with
  | absent unknown => rw [unknown] at known; cases known
  | present _ known' _ =>
    obtain rfl := Option.some.inj (known.symm.trans known')
    exact List.filter_sublist

/-- A super class that exists is one that the class may extend. -/
theorem mayExtend (rooted : world.IsRooted) (links : world.Links name cls)
    (others : world.Links other record) (extends_ : cls.superClass = some other)
    (present : record.isPresent = true) : cls.kind.mayExtend other record.kind = true := by
  cases links with
  | absent _ => cases extends_
  | @present _ summary parents known linked =>
    obtain ⟨declared, hd, kept⟩ := Option.bind_eq_some_iff.1 extends_
    have hl := linked declared (by simp [ClassSummary.parents, hd])
    split at kept
    · rename_i accepted
      cases kept
      obtain rfl := hl.unique others
      rw [present] at accepted
      exact accepted
    · -- An ordinary class with a wrong super class gets the root class, which is a plain one.
      split at kept
      · rename_i ordinary
        cases kept
        obtain ⟨ordinary, _⟩ := Bool.and_eq_true_iff.1 ordinary
        show (summary.kind.mayExtendKind record.kind || _) = true
        rw [(others.object_eq rooted).1, ClassKind.mayExtendKind, if_pos ordinary]
        rfl
      · cases kept

/-- An interface that exists is of the kind that the class may implement. -/
theorem implements (links : world.Links name cls) (others : world.Links other record)
    (mem : other ∈ cls.interfaces) (present : record.isPresent = true) :
    record.kind = cls.kind.implementedKind := by
  cases links with
  | absent _ => cases mem
  | @present _ summary parents known linked =>
    obtain ⟨declares, kept⟩ := List.mem_filter.1 mem
    obtain rfl := (linked other (List.mem_append_right _ declares)).unique others
    rw [present] at kept
    exact of_decide_eq_true kept

/-- What a class outside of JavaScript may extend is outside of it too. -/
theorem kind_of_superClass (rooted : world.IsRooted) (links : world.Links name cls)
    (family : cls.kind.isJS = false) (others : world.Links other record)
    (extends_ : cls.superClass = some other) (present : record.isPresent = true) :
    cls.kind ≠ .interface ∧ record.kind = .plain := by
  have accepted := links.mayExtend rooted others extends_ present
  rcases Bool.or_eq_true_iff.1 accepted with accepted | accepted
  · unfold ClassKind.mayExtendKind at accepted
    split at accepted
    · rename_i ordinary
      refine ⟨?_, by simpa using accepted⟩
      rintro kind
      rw [kind] at ordinary
      cases ordinary
    · rw [family] at accepted
      cases accepted
  · obtain ⟨mayExtend, is_object⟩ := Bool.and_eq_true_iff.1 accepted
    obtain rfl : other = .object := by simpa using is_object
    refine ⟨?_, (others.object_eq rooted).1⟩
    rintro kind
    rw [kind] at mayExtend
    cases mayExtend

/-- A parent of an ordinary class or of an interface is a plain class or an interface. -/
theorem kind_of_parent (rooted : world.IsRooted) (links : world.Links name cls)
    (family : cls.kind.isOrdinary = true ∨ cls.kind = .interface)
    (others : world.Links other record) (mem : other ∈ cls.parents) :
    record.kind = .plain ∨ record.kind = .interface := by
  have notJS : cls.kind.isJS = false := by
    rcases family with f | f
    · revert f; cases cls.kind <;> simp [ClassKind.isOrdinary, ClassKind.isJS]
    · rw [f]; rfl
  cases present : record.isPresent with
  | false => exact .inl (others.alone present).1
  | true =>
    rcases List.mem_append.1 mem with extends_ | implements_
    · exact .inl (links.kind_of_superClass rooted notJS others (Option.mem_toList.1 extends_)
        present).2
    · have kind := links.implements others implements_ present
      rw [ClassKind.implementedKind, notJS] at kind
      exact .inr kind

/-- Above an ordinary class or an interface there are only plain classes and interfaces. -/
theorem kind_of_mem (rooted : world.IsRooted) (links : world.Links name cls)
    (family : cls.kind.isOrdinary = true ∨ cls.kind = .interface)
    (others : world.Links other record) (mem : other ∈ cls.ancestors) :
    other = name ∨ record.kind = .plain ∨ record.kind = .interface := by
  induction name, cls, links using induct rooted with
  | step name cls links ih =>
    rcases (links.mem_ancestors rooted).1 mem with rfl | ⟨parent, hp, above, ha, mem⟩
    · exact .inl rfl
    · have kind_above := links.kind_of_parent rooted family ha hp
      have family_above : above.kind.isOrdinary = true ∨ above.kind = .interface :=
        kind_above.imp_left fun h => by rw [h]; rfl
      rcases ih parent hp above ha family_above mem with rfl | h
      · obtain rfl := ha.unique others
        exact .inr kind_above
      · exact .inr h

end Links

end Universe

end ClassLinker
