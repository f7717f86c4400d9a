import ClassLinker.Linking
import ClassLinker.Proofs.Loading

/-!
# What a linked program is made of

A program that `link` gives back holds, of every class that is needed and of no other one, what
`KeptClass.ofRecord` keeps of a declaration (`Keeps`). All methods that are added to a class get the
code that `Forwarder.Makes` describes, and every reachable method has code (`Keeps.holds`).
-/

namespace ClassLinker

variable {loader after : Loader} {bench : Workbench} {analysis : Analysis}
variable {cls : ClassRecord} {kept : KeptClass} {name : ClassName} {key : MethodKey}
variable {entry : VersionedDecl} {made : List MethodDecl} {method : MethodDecl}
variable {record : MethodRecord} {id : MethodId} {forwarder : Forwarder}

/-! ### The code that is made -/

/-- The code that a method of the given name gets which has been added to a class: a bridge forwards
to the interface, and a proxy calls a method of the class. -/
inductive Forwarder.Makes (owner : ClassName) (name : MethodName) : Forwarder → MethodDecl → Prop
  | bridge (interface : ClassName) (target : MethodDecl) :
      Makes owner name (.bridge interface) (.bridge name interface target)
  | proxy {called : MethodName} (target : MethodDecl) (named : target.name = called) :
      Makes owner name (.proxy called) (.proxy name owner target)

theorem Forwarder.Makes.isSome_body {owner : ClassName} {called : MethodName}
    (makes : forwarder.Makes owner called method) : method.body.isSome = true := by
  cases makes <;> rfl

/-- The code has been made for reachable methods of the class that have been added to it. -/
def ClassRecord.Made (cls : ClassRecord) (made : List MethodDecl) : Prop :=
  ∀ method ∈ made, ∃ record ∈ cls.reached, ∃ forwarder, record.forwarder = some forwarder ∧
    forwarder.Makes cls.name record.id.name method

namespace Workbench

theorem name_of_targetIn {target : MethodName} {event : Event}
    (found : (bench.targetIn name target event).1 = .ok (some method)) : method.name = target := by
  unfold targetIn at found
  split at found
  · cases found
  · split at found
    · rename_i declares
      cases found
      exact (ClassDecl.mem_of_method? declares).2.2
    · cases found

/-- The code of an added method is what its way of forwarding asks for. -/
theorem makes_of_member (found : (bench.member analysis cls id forwarder).1 = .ok (some method)) :
    forwarder.Makes cls.name id.name method := by
  unfold member at found
  split at found
  · obtain ⟨target, _, same⟩ := exists_of_map_eq_ok found
    obtain ⟨target, _, rfl⟩ := Option.map_eq_some_iff.1 same
    exact .bridge _ target
  · simp only at found
    split at found
    · cases found
    · obtain ⟨target, answers, same⟩ := exists_of_map_eq_ok found
      obtain ⟨target, rfl, rfl⟩ := Option.map_eq_some_iff.1 same
      exact .proxy target (name_of_targetIn answers)

theorem makes_of_membersAmong {added : List (MethodId × Forwarder)}
    (makes : (bench.membersAmong analysis cls added).1 = .ok made) :
    ∀ method ∈ made, ∃ item ∈ added, item.2.Makes cls.name item.1.name method := by
  induction added generalizing bench made with
  | nil =>
    cases makes
    exact fun _ mem => by cases mem
  | cons first rest ih =>
    have makes_first : ∀ method,
        (bench.member analysis cls first.1 first.2).1 = .ok (some method) →
          first.2.Makes cls.name first.1.name method := fun _ => makes_of_member
    unfold membersAmong at makes
    generalize bench.member analysis cls first.1 first.2 = member at makes makes_first
    obtain ⟨_ | code, later⟩ := member
    · cases makes
    · obtain ⟨more, answers, rfl⟩ := exists_of_map_eq_ok makes
      intro method mem
      rcases List.mem_append.1 mem with mem | mem
      · exact ⟨first, List.mem_cons_self,
          makes_first method (congrArg Except.ok (Option.mem_toList.1 mem))⟩
      · obtain ⟨item, listed, makes⟩ := ih answers method mem
        exact ⟨item, List.mem_cons_of_mem _ listed, makes⟩

theorem made_members (makes : (bench.members analysis cls).1 = .ok made) : cls.Made made := by
  intro method mem
  obtain ⟨item, listed, makes⟩ := makes_of_membersAmong makes method mem
  obtain ⟨record, reached, same⟩ := List.mem_filterMap.1 listed
  obtain ⟨forwarder, forwards, rfl⟩ := Option.map_eq_some_iff.1 same
  exact ⟨record, reached, forwarder, forwards, makes⟩

end Workbench

/-! ### The classes that are kept -/

namespace KeptClass

/-- What is kept, and that every reachable method has a body. -/
theorem ofRecord_eq_ok : ofRecord cls entry made = .ok kept ↔
    (∀ record ∈ cls.reached, ClassRecord.hasBody entry.decl made record = true) ∧ kept = {
      name := cls.name
      kind := cls.linkedKind
      superClass := cls.superClass
      interfaces := cls.interfaces
      fields := entry.decl.fields.filter cls.keepsField
      methods := entry.decl.methods.filter cls.keepsMethod ++ made
      jsConstructor := if cls.hasInstances then entry.decl.jsConstructor else none
      exportedMembers := if cls.hasInstances then entry.decl.exportedMembers else []
      exports := entry.decl.exports
      hasInstances := cls.hasInstances
      isTested := cls.uses.tests
      hasTypeData := cls.uses.typeData
      ancestors := cls.ancestors
      version := entry.version } := by
  unfold ofRecord
  split
  · rename_i record missing
    have mem := List.mem_of_find?_eq_some missing
    have bodyless := List.find?_some missing
    refine ⟨fun h => (by cases h), fun h => ?_⟩
    rw [h.1 record mem] at bodyless
    cases bodyless
  · rename_i complete
    rw [Except.ok.injEq]
    refine ⟨fun h => ⟨fun record mem => ?_, h.symm⟩, fun h => h.2.symm⟩
    simpa using List.find?_eq_none.1 complete record mem

end KeptClass

/-- A program keeps this of a class, given a declaration of it that has been loaded. -/
def Keeps (loader : Loader) (cls : ClassRecord) (kept : KeptClass) : Prop :=
  ∃ entry made, loader.Declares cls.name entry ∧ cls.Made made ∧
    KeptClass.ofRecord cls entry made = .ok kept

/-- A program keeps this of a class that has been analyzed: the methods added to it have been made
at some workbench. -/
def KeepsAll (analysis : Analysis) (loader : Loader) (cls : ClassRecord) (kept : KeptClass) :
    Prop :=
  ∃ entry made, ∃ bench : Workbench, loader.Declares cls.name entry ∧
    (bench.members analysis cls).1 = .ok made ∧ KeptClass.ofRecord cls entry made = .ok kept

theorem KeepsAll.keeps (all : KeepsAll analysis loader cls kept) : Keeps loader cls kept := by
  obtain ⟨entry, made, _, declares, makes, same⟩ := all
  exact ⟨entry, made, declares, Workbench.made_members makes, same⟩

theorem Keeps.of_loads (loads : loader.Loads after) (keeps : Keeps after cls kept) :
    Keeps loader cls kept := by
  obtain ⟨entry, made, declares, makes, same⟩ := keeps
  exact ⟨entry, made, .of_loads loads declares, makes, same⟩

/-- The name and the flags of a class that is kept. -/
theorem Keeps.flags (keeps : Keeps loader cls kept) :
    kept.name = cls.name ∧ kept.kind = cls.linkedKind ∧ kept.hasInstances = cls.hasInstances ∧
      kept.isTested = cls.uses.tests ∧ kept.hasTypeData = cls.uses.typeData := by
  obtain ⟨entry, made, _, _, same⟩ := keeps
  rw [(KeptClass.ofRecord_eq_ok.1 same).2]
  exact ⟨rfl, rfl, rfl, rfl, rfl⟩

theorem keepEach_spec {classes : List (ClassRecord × VersionedDecl)} {program : List KeptClass}
    (keeps : (keepEach analysis classes bench).1 = .ok program) :
    List.Forall₂ (fun item kept => ∃ made, ∃ bench : Workbench,
      (bench.members analysis item.1).1 = .ok made ∧
        KeptClass.ofRecord item.1 item.2 made = .ok kept) classes program := by
  induction classes generalizing bench program with
  | nil =>
    cases keeps
    exact .nil
  | cons first rest ih =>
    have makes : ∀ made, (bench.members analysis first.1).1 = .ok made →
        ∃ bench : Workbench, (bench.members analysis first.1).1 = .ok made :=
      fun _ makes => ⟨bench, makes⟩
    unfold keepEach at keeps
    generalize bench.members analysis first.1 = members at keeps makes
    obtain ⟨_ | made, later⟩ := members
    · cases keeps
    · simp only at keeps
      split at keeps
      · cases keeps
      · rename_i kept same
        obtain ⟨more, answers, rfl⟩ := exists_of_map_eq_ok keeps
        obtain ⟨before, makes⟩ := makes made rfl
        exact .cons ⟨made, before, makes, same⟩ (ih answers)

/-- The program keeps something of each needed class, in order, and of no other one. -/
theorem keepNeeded_spec {program : List KeptClass}
    (keeps : (keepNeeded analysis loader).1 = .ok program) :
    List.Forall₂ (KeepsAll analysis loader) analysis.neededClasses program := by
  have loads : ∀ entries,
      (loader.loadDecls (analysis.neededClasses.map ClassRecord.name)).1 = .ok entries →
        List.Forall₂ loader.Declares (analysis.neededClasses.map ClassRecord.name) entries :=
    fun _ answers => (Loader.loadDecls_spec answers).2
  unfold keepNeeded at keeps
  simp only at keeps
  generalize loader.loadDecls (analysis.neededClasses.map ClassRecord.name) = loaded at keeps loads
  obtain ⟨_ | entries, later⟩ := loaded
  · cases keeps
  · have declares := List.forall₂_map_left_iff.1 (loads entries rfl)
    have each := keepEach_spec keeps
    clear keeps loads
    generalize analysis.neededClasses = needed at declares each
    induction declares generalizing program with
    | nil =>
      cases each
      exact .nil
    | cons declares _ ih =>
      cases each with
      | cons first rest =>
        obtain ⟨made, before, makes, same⟩ := first
        exact .cons ⟨_, made, before, declares, makes, same⟩ (ih rest)

/-- The needed classes are those that exist and are needed, if each is known by its own name. -/
theorem Analysis.mem_neededClasses
    (named : ∀ {name cls}, analysis.class? name = some cls → cls.name = name) :
    cls ∈ analysis.neededClasses ↔
      analysis.class? cls.name = some cls ∧ cls.isPresent = true ∧ cls.isNeeded = true := by
  simp only [neededClasses, classList, List.mem_filter, List.mem_map, Bool.and_eq_true]
  refine and_congr_left fun _ => ⟨?_, fun found => ?_⟩
  · rintro ⟨⟨name, known⟩, listed, rfl⟩
    have found : analysis.class? name = some known :=
      Std.ExtTreeMap.mem_toList_iff_getElem?_eq_some.1 listed
    rwa [named found]
  · exact ⟨(cls.name, cls), Std.ExtTreeMap.mem_toList_iff_getElem?_eq_some.2 found, rfl⟩

/-- They are listed in name order then. -/
theorem Analysis.pairwise_neededClasses
    (named : ∀ {name cls}, analysis.class? name = some cls → cls.name = name) :
    (analysis.neededClasses.map ClassRecord.name).Pairwise
      fun first second => compare first second = .lt := by
  have names : ∀ item ∈ analysis.classes.toList, item.2.name = item.1 := fun item listed =>
    named (Std.ExtTreeMap.mem_toList_iff_getElem?_eq_some.1 listed)
  refine List.pairwise_map.2 (.filter _ (List.pairwise_map.2
    (Std.ExtTreeMap.ordered_keys_toList.imp_of_mem ?_)))
  intro first second memFirst memSecond less
  rw [names first memFirst, names second memSecond]
  exact less

/-- A program that is linked comes from an analysis without errors. -/
theorem exists_of_link {options : LinkOptions} {requirement : Requirement}
    {startup : List StartupCall} {program : LinkedProgram}
    (links : (link options requirement startup loader).result = .ok program) :
    ∃ analysis after,
      analyze options.allowForwarders (requirement + startupRequirement startup) loader =
        (.ok analysis, after) ∧
      analysis.errors = [] ∧
      List.Forall₂ (KeepsAll analysis after) analysis.neededClasses program.classes := by
  unfold link at links
  simp only at links
  generalize analyze options.allowForwarders (requirement + startupRequirement startup) loader =
    outcome at links
  obtain ⟨_ | analysis, after⟩ := outcome
  · cases links
  · simp only at links
    split at links
    · cases links
    · rename_i clean
      obtain ⟨classes, keeps, rfl⟩ := exists_of_map_eq_ok links
      refine ⟨analysis, after, rfl, ?_, keepNeeded_spec keeps⟩
      simpa [Analysis.isClean] using clean

/-! ### The methods that are kept -/

/-- The class holds a method with a body. -/
def KeptClass.Holds (kept : KeptClass) (key : MethodKey) : Prop :=
  ∃ method ∈ kept.methods, method.space = key.space ∧ method.name = key.name ∧
    method.body.isSome = true

/-- A reachable method is entered among the methods of its class. -/
theorem ClassRecord.mem_reached :
    record ∈ cls.reached ↔ (∃ key, cls.method? key = some record) ∧ record.isReached = true := by
  simp only [reached, methodList, List.mem_filter, List.mem_map]
  refine and_congr_left fun _ => ⟨?_, ?_⟩
  · rintro ⟨⟨key, _⟩, listed, rfl⟩
    exact ⟨key, Std.ExtTreeMap.mem_toList_iff_getElem?_eq_some.1 listed⟩
  · rintro ⟨key, has⟩
    exact ⟨(key, record), Std.ExtTreeMap.mem_toList_iff_getElem?_eq_some.2 has, rfl⟩

/-- If a reachable method has a body, then this is that of a method which the declaration lists and
which is kept, or of one that has been made. -/
theorem ClassRecord.exists_of_hasBody {decl : ClassDecl}
    (has : cls.method? record.id.key = some record) (reached : record.isReached = true)
    (body : ClassRecord.hasBody decl made record = true) :
    ∃ method ∈ decl.methods.filter cls.keepsMethod ++ made,
      (⟨method.space, method.name⟩ : MethodKey) = record.id.key ∧
        (method ∈ made ∨ method.isAbstract = false) := by
  unfold ClassRecord.hasBody at body
  split at body
  · obtain ⟨method, mem, named⟩ := List.any_eq_true.1 body
    simp only [Bool.and_eq_true, decide_eq_true_eq] at named
    exact ⟨method, List.mem_append_right _ mem, congrArg₂ MethodKey.mk named.1 named.2, .inl mem⟩
  · rename_i own
    obtain ⟨method, declares, concrete⟩ := (Option.any_eq_true ..).1 body
    obtain ⟨listed, space, name⟩ := ClassDecl.mem_of_method? declares
    have key_eq : (⟨method.space, method.name⟩ : MethodKey) = record.id.key :=
      congrArg₂ MethodKey.mk space name
    have keeps : cls.keepsMethod method = true := by
      rw [keepsMethod, key_eq, has, Option.any_some, reached, Bool.true_and]
      simpa using own
    exact ⟨method, List.mem_append_left _ (List.mem_filter.2 ⟨listed, keeps⟩), key_eq,
      .inr (by simpa using concrete)⟩

/-- Every reachable method of a class that is kept has a body. -/
theorem Keeps.holds (keeps : Keeps loader cls kept) (has : cls.method? key = some record)
    (id_eq : record.id.key = key) (reached : record.isReached = true) : kept.Holds key := by
  obtain ⟨entry, made, _, makes, same⟩ := keeps
  obtain ⟨bodies, rfl⟩ := KeptClass.ofRecord_eq_ok.1 same
  subst id_eq
  obtain ⟨method, mem, key_eq, code⟩ := ClassRecord.exists_of_hasBody has reached
    (bodies record (ClassRecord.mem_reached.2 ⟨⟨_, has⟩, reached⟩))
  refine ⟨method, mem, congrArg MethodKey.space key_eq, congrArg MethodKey.name key_eq, ?_⟩
  rcases code with listed | concrete
  · obtain ⟨_, _, forwarder, _, makes⟩ := makes method listed
    exact makes.isSome_body
  · simpa [MethodDecl.isAbstract] using concrete

end ClassLinker
