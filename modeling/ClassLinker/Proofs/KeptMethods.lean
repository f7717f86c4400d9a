import ClassLinker.Proofs.Forwarders
import ClassLinker.Proofs.KeptCode

/-!
# Which methods a linked program holds

What a class of a linked program holds comes from two sides: its declaration, and the methods that
have been made for what the analysis has added to the class. The analysis tells by its own entry of
a method which side it comes from, and adds something in place of a declared method only if that has
no code (`ClassRecord.Valid.isAbstract_of_replaced`). So the two sides never overlap, and together
they leave nothing out that is reachable: `ClassRecord.HeldBy` says what is held, and
`ClassRecord.Valid.heldBy` that it is.

`link_holdsReached`: a linked program has the classes that are needed, by name, and each holds its
reachable methods. Classes may list no method twice.
-/

namespace ClassLinker

variable {setting : Setting} {loader : Loader} {bench : Workbench} {analysis : Analysis}
variable {cls : ClassRecord} {kept : KeptClass} {entry : VersionedDecl} {decl : ClassDecl}
variable {made : List MethodDecl} {method : MethodDecl} {record : MethodRecord}

/-- The method within its class. -/
def MethodDecl.key (method : MethodDecl) : MethodKey :=
  ⟨method.space, method.name⟩

namespace ClassRecord

/-- The method is a reachable one of the class, and it is the class's own. -/
def ReachesOwn (cls : ClassRecord) (method : MethodDecl) : Prop :=
  ∃ record ∈ cls.reached, record.id.key = method.key ∧ record.forwarder = none

/-- The method is a reachable one of the class, and it has been made for what the analysis has
added. -/
def ReachesAdded (cls : ClassRecord) (method : MethodDecl) : Prop :=
  ∃ record ∈ cls.reached, record.id.key = method.key ∧ ∃ forwarder,
    record.forwarder = some forwarder ∧ forwarder.Makes cls.name record.id.name method

/-- The methods are one with code for each reachable method of the class: at first those that the
declaration lists, as they are listed, and then those that have been made for it, by key. Where
something has been added in place of a method that is listed, this one has no code and is left
out. -/
structure HeldBy (cls : ClassRecord) (decl : ClassDecl) (methods : List MethodDecl) : Prop where
  keys : (methods.map MethodDecl.key).Perm (cls.reached.map fun record => record.id.key)
  nodup : (methods.map MethodDecl.key).Nodup
  code : ∀ method ∈ methods, method.body.isSome = true
  parts : ∃ own made, methods = own ++ made ∧ own.Sublist decl.methods ∧
    (∀ method ∈ own, cls.ReachesOwn method) ∧ (∀ method ∈ made, cls.ReachesAdded method) ∧
    (made.map MethodDecl.key).Pairwise fun first second => compare first second = .lt
  replaced : ∀ method ∈ decl.methods, ∀ record, cls.method? method.key = some record →
    record.forwarder.isSome = true → method.isAbstract = true ∧ method ∉ methods

end ClassRecord

/-! ### Keys -/

/-- No key stands twice among keys in order. -/
theorem MethodKey.nodup_of_pairwise {keys : List MethodKey}
    (ordered : keys.Pairwise fun first second => compare first second = .lt) : keys.Nodup := by
  refine ordered.imp ?_
  rintro first _ less rfl
  rw [Std.LawfulEqOrd.compare_eq_iff_eq.2 rfl] at less
  cases less

theorem Forwarder.Makes.key_eq {forwarder : Forwarder} {owner : ClassName} {name : MethodName}
    (makes : forwarder.Makes owner name method) : method.key = ⟨.publicInstance, name⟩ := by
  cases makes <;> rfl

/-- The code that is made for public methods has their keys, in the same order. -/
theorem Workbench.sublist_membersAmong {items : List (MethodId × Forwarder)}
    (spaces : ∀ item ∈ items, item.1.space = .publicInstance)
    (makes : (bench.membersAmong analysis cls items).1 = .ok made) :
    (made.map MethodDecl.key).Sublist (items.map fun item => item.1.key) := by
  induction items generalizing bench made with
  | nil =>
    cases makes
    exact .refl _
  | cons first rest ih =>
    obtain ⟨space, spaces⟩ := List.forall_mem_cons.1 spaces
    have makes_first : ∀ method,
        (bench.member analysis cls first.1 first.2).1 = .ok (some method) →
          method.key = first.1.key := by
      intro method found
      rw [(makes_of_member found).key_eq, MethodId.key, space]
    unfold membersAmong at makes
    generalize bench.member analysis cls first.1 first.2 = member at makes makes_first
    obtain ⟨_ | code, later⟩ := member
    · cases makes
    · obtain ⟨more, answers, rfl⟩ := exists_of_map_eq_ok makes
      have sublist := ih spaces answers
      cases code with
      | none => exact .cons _ sublist
      | some method =>
        rw [Option.toList_some, List.singleton_append, List.map_cons, makes_first method rfl,
          List.map_cons]
        exact .cons_cons _ sublist

namespace ClassRecord.Valid

variable (valid : cls.Valid setting)

include valid

/-! ### Both sides -/

/-- What has been added to a class are public methods. -/
theorem space_of_mem_forwarders {item : MethodId × Forwarder} (mem : item ∈ cls.forwarders) :
    item.1.space = .publicInstance := by
  obtain ⟨key, record, has, id_eq, added⟩ := exists_of_mem_forwarders mem
  rw [← id_eq, (valid.entries has).id_eq]
  cases valid.entries has with
  | added _ space => exact space
  | declared _ _ _ _ own | missing _ _ _ own => rw [added] at own; cases own

/-- A reachable method is entered under its own key. -/
theorem method?_of_mem_reached (mem : record ∈ cls.reached) :
    cls.method? record.id.key = some record := by
  obtain ⟨⟨key, has⟩, _⟩ := ClassRecord.mem_reached.1 mem
  rw [(valid.entries has).id_eq]
  exact has

theorem nodup_reached : (cls.reached.map fun record => record.id.key).Nodup :=
  MethodKey.nodup_of_pairwise (List.pairwise_map.2 (valid.pairwise_methodList.filter _))

/-- What has been made for a class has the keys of what has been added to it, in order. -/
theorem pairwise_made (makes : (bench.members analysis cls).1 = .ok made) :
    (made.map MethodDecl.key).Pairwise fun first second => compare first second = .lt :=
  (List.pairwise_map.2 valid.pairwise_forwarders).sublist
    (Workbench.sublist_membersAmong (fun _ => valid.space_of_mem_forwarders) makes)

/-- What has been made for a class is reachable there. -/
theorem reachesAdded (makes : (bench.members analysis cls).1 = .ok made) (mem : method ∈ made) :
    cls.ReachesAdded method := by
  obtain ⟨record, reached, forwarder, added, makes⟩ := Workbench.made_members makes method mem
  have space : record.id.space = .publicInstance :=
    valid.space_of_mem_forwarders (List.mem_filterMap.2
      ⟨record, reached, by rw [added, Option.map_some]⟩)
  refine ⟨record, reached, ?_, forwarder, added, makes⟩
  rw [makes.key_eq, MethodId.key, space]

/-- What is kept of a declaration is reachable. -/
theorem reachesOwn (mem : method ∈ decl.methods.filter cls.keepsMethod) :
    cls.ReachesOwn method := by
  obtain ⟨record, has, reached, own⟩ := ClassRecord.keepsMethod_iff.1 (List.mem_filter.1 mem).2
  refine ⟨record, ClassRecord.mem_reached.2 ⟨⟨_, has⟩, reached⟩, ?_, own⟩
  rw [(valid.entries has).id_eq]
  rfl

/-- No method is on both sides. -/
theorem key_ne {other : MethodDecl} (own : cls.ReachesOwn method)
    (added : cls.ReachesAdded other) : method.key ≠ other.key := by
  obtain ⟨record, reached, key_eq, own⟩ := own
  obtain ⟨record', reached', key_eq', forwarder, added, _⟩ := added
  intro same
  have has := valid.method?_of_mem_reached reached
  rw [key_eq, same, ← key_eq', valid.method?_of_mem_reached reached'] at has
  obtain rfl := Option.some.inj has
  rw [own] at added
  cases added

/-- Something stands in place of a method that is listed only if this has no code. -/
theorem isAbstract_of_replaced (nodup : decl.methodKeys.Nodup)
    (known : cls.summary = some decl.summary) (mem : method ∈ decl.methods)
    (has : cls.method? method.key = some record) (added : record.forwarder.isSome = true) :
    method.isAbstract = true := by
  have listed : method.summary ∈ decl.summary.methods := List.mem_map_of_mem mem
  have isSome : (cls.fresh.method? method.key).isSome = true :=
    ClassRecord.isSome_declared known listed
  obtain ⟨declared, declares⟩ := Option.isSome_iff_exists.1 isSome
  obtain ⟨summary, known', shown, mem', key_eq, rfl⟩ := ClassRecord.exists_declared declares
  obtain rfl := Option.some.inj (known.symm.trans known')
  obtain rfl : method.summary = shown :=
    ClassDecl.eq_of_mem_summary nodup listed mem' (congrArg MethodKey.space key_eq)
      (congrArg MethodKey.name key_eq)
  cases valid.entries has with
  | declared _ _ _ _ own | missing _ _ _ own => rw [own] at added; cases added
  | added _ _ _ _ _ replaces =>
    have bodiless := replaces _ declares
    simpa [MethodRecord.isConcrete, MethodRecord.ofSummary, MethodDecl.summary] using bodiless

/-! ### What is kept -/

omit valid in
/-- A reachable method that is the class's own has code. -/
theorem isSome_body_of_hasBody (nodup : decl.methodKeys.Nodup) (mem : method ∈ decl.methods)
    (own : record.forwarder = none) (key_eq : record.id.key = method.key)
    (body : ClassRecord.hasBody decl made record = true) : method.body.isSome = true := by
  have named : record.id.space = method.space ∧ record.id.name = method.name :=
    MethodKey.mk.inj key_eq
  rw [ClassRecord.hasBody, own, named.1, named.2, ClassDecl.method?_of_mem nodup mem] at body
  simpa [MethodDecl.isAbstract] using body

/-- A linked program holds of a class what is reachable of it. -/
theorem heldBy (nodup : entry.decl.methodKeys.Nodup) (known : cls.summary = some entry.decl.summary)
    (makes : (bench.members analysis cls).1 = .ok made)
    (keeps : KeptClass.ofRecord cls entry made = .ok kept) :
    cls.HeldBy entry.decl kept.methods := by
  obtain ⟨bodies, rfl⟩ := KeptClass.ofRecord_eq_ok.1 keeps
  -- Both sides lead to entries of the class, and the entries have distinct keys.
  have own : ∀ method ∈ entry.decl.methods.filter cls.keepsMethod, cls.ReachesOwn method :=
    fun _ => valid.reachesOwn
  have added : ∀ method ∈ made, cls.ReachesAdded method := fun _ => valid.reachesAdded makes
  have distinct : ((entry.decl.methods.filter cls.keepsMethod ++ made).map
      MethodDecl.key).Nodup := by
    rw [List.map_append, List.nodup_append]
    refine ⟨nodup.sublist (List.filter_sublist.map _),
      MethodKey.nodup_of_pairwise (valid.pairwise_made makes), ?_⟩
    simp only [List.forall_mem_map]
    exact fun method listed other among => valid.key_ne (own method listed) (added other among)
  have code : ∀ method ∈ entry.decl.methods.filter cls.keepsMethod ++ made,
      method.body.isSome = true := by
    intro method mem
    rcases List.mem_append.1 mem with mem | mem
    · obtain ⟨record, reached, key_eq, own⟩ := own method mem
      exact isSome_body_of_hasBody nodup (List.mem_filter.1 mem).1 own key_eq
        (bodies record reached)
    · obtain ⟨_, _, _, _, _, makes⟩ := added method mem
      exact makes.isSome_body
  refine {
    keys := (List.perm_ext_iff_of_nodup distinct valid.nodup_reached).2 fun key => ?_
    nodup := distinct
    code := code
    parts := ⟨_, made, rfl, List.filter_sublist, own, added, valid.pairwise_made makes⟩
    replaced := fun method listed record has replaced => ?_ }
  · simp only [List.mem_map]
    constructor
    · rintro ⟨method, mem, rfl⟩
      rcases List.mem_append.1 mem with mem | mem
      · obtain ⟨record, reached, key_eq, _⟩ := own method mem
        exact ⟨record, reached, key_eq⟩
      · obtain ⟨record, reached, key_eq, _⟩ := added method mem
        exact ⟨record, reached, key_eq⟩
    · rintro ⟨record, reached, rfl⟩
      obtain ⟨method, mem, key_eq, _⟩ := ClassRecord.exists_of_hasBody
        (valid.method?_of_mem_reached reached) (ClassRecord.mem_reached.1 reached).2
        (bodies record reached)
      exact ⟨method, mem, key_eq⟩
  · have isAbstract := valid.isAbstract_of_replaced nodup known listed has replaced
    refine ⟨isAbstract, fun mem => ?_⟩
    rw [MethodDecl.isAbstract, ← Option.not_isSome, code method mem] at isAbstract
    cases isAbstract

end ClassRecord.Valid

/-- The program has the existing classes that are needed, each once and in name order, and each one
holds its reachable methods. -/
structure LinkedProgram.HoldsReached (program : LinkedProgram) (analysis : Analysis)
    (loader : Loader) : Prop where
  ordered : (program.classes.map KeptClass.name).Pairwise
    fun first second => compare first second = .lt
  classes : ∀ name, name ∈ program.classes.map KeptClass.name ↔ ∃ cls,
    analysis.class? name = some cls ∧ cls.isPresent = true ∧ cls.isNeeded = true
  methods : ∀ kept ∈ program.classes, ∃ cls entry, analysis.class? kept.name = some cls ∧
    loader.Declares kept.name entry ∧ cls.HeldBy entry.decl kept.methods

/-- A linked program holds what its analysis has found to be needed, and nothing else. -/
theorem link_holdsReached {options : LinkOptions} {requirement : Requirement}
    {startup : List StartupCall} {program : LinkedProgram} (summarizes : loader.Summarizes)
    (nodup : ∀ {name entry}, loader.Declares name entry → entry.decl.methodKeys.Nodup)
    (links : (link options requirement startup loader).result = .ok program) :
    ∃ analysis after,
      analyze options.allowForwarders (requirement + startupRequirement startup) loader =
        (.ok analysis, after) ∧
      program.HoldsReached analysis loader := by
  obtain ⟨analysis, after, ends, _, keeps⟩ := exists_of_link links
  have loads := (analyze_cases ends).1
  have named : ∀ {name cls}, analysis.class? name = some cls → cls.name = name := by
    intro name cls found
    obtain ⟨state, reaches, known, _⟩ := exists_reached_of_analyze ends found
    exact reaches.valid.follows.name_eq known
  have names : program.classes.map KeptClass.name =
      analysis.neededClasses.map ClassRecord.name := by
    rw [← List.forall₂_eq_eq_eq, List.forall₂_map_left_iff, List.forall₂_map_right_iff]
    exact keeps.flip.imp fun _ _ all => (KeepsAll.keeps all).flags.1
  refine ⟨analysis, after, ends, ?_, fun name => ?_, fun kept mem => ?_⟩
  · rw [names]
    exact Analysis.pairwise_neededClasses named
  · rw [names, List.mem_map]
    constructor
    · rintro ⟨cls, mem, rfl⟩
      exact ⟨cls, (Analysis.mem_neededClasses named).1 mem⟩
    · rintro ⟨cls, found, needed⟩
      obtain rfl := named found
      exact ⟨cls, (Analysis.mem_neededClasses named).2 ⟨found, needed⟩, rfl⟩
  · obtain ⟨cls, mem, all⟩ := exists_of_forall₂_left keeps.flip mem
    have name_eq := (KeepsAll.keeps all).flags.1
    obtain ⟨entry, made, bench, declares, makes, same⟩ := all
    have found := ((Analysis.mem_neededClasses named).1 mem).1
    have declares : loader.Declares cls.name entry := .of_loads loads declares
    obtain ⟨state, reaches, known, _⟩ := exists_reached_of_analyze ends found
    have summary_eq : cls.summary = some entry.decl.summary :=
      (reaches.valid.follows.summary_eq known).trans (summarizes declares)
    rw [name_eq]
    exact ⟨cls, entry, found, declares,
      (reaches.valid.classes known).heldBy (nodup declares) summary_eq makes same⟩

/-- A class with an abstract method that it inherits as a default method, and with another method
that nothing calls. -/
def defaulting : List ClassDecl :=
  [.ofMethods .object .plain [] [],
    .ofMethods ⟨"I"⟩ .interface [] [.plain .publicInstance ⟨"m__V"⟩ (some .skip)],
    .ofMethods ⟨"A"⟩ .plain [.object, ⟨"I"⟩]
      [.plain .constructor .defaultConstructor (some .skip),
        .plain .publicInstance ⟨"m__V"⟩ none,
        .plain .publicInstance ⟨"n__V"⟩ (some .skip),
        .plain .publicStatic ⟨"main__V"⟩ (some
          (.call ⟨"A"⟩ (.new ⟨"A"⟩ .defaultConstructor []) ⟨"m__V"⟩ []))]]

/-- A bridge is held in place of the abstract method. -/
theorem link_holdsReached_defaulting :
    ∃ program analysis after, (link {} (.callStatic "test" ⟨"A"⟩ ⟨"main__V"⟩) []
        (Loader.ofDecls defaulting)).result = .ok program ∧
      analyze true (.callStatic "test" ⟨"A"⟩ ⟨"main__V"⟩ + startupRequirement [])
        (Loader.ofDecls defaulting) = (.ok analysis, after) ∧
      program.HoldsReached analysis (Loader.ofDecls defaulting) ∧
      program.classes.map (fun kept => (kept.name, kept.methods.map MethodDecl.key)) =
        [(⟨"A"⟩, [⟨.constructor, .defaultConstructor⟩, ⟨.publicStatic, ⟨"main__V"⟩⟩,
            ⟨.publicInstance, ⟨"m__V"⟩⟩]),
          (⟨"I"⟩, [⟨.publicInstance, ⟨"m__V"⟩⟩]), (.object, [])] := by
  have told : (link {} (.callStatic "test" ⟨"A"⟩ ⟨"main__V"⟩) []
      (Loader.ofDecls defaulting)).result.toOption.map (fun program =>
        program.classes.map fun kept => (kept.name, kept.methods.map MethodDecl.key)) =
      some [(⟨"A"⟩, [⟨.constructor, .defaultConstructor⟩, ⟨.publicStatic, ⟨"main__V"⟩⟩,
          ⟨.publicInstance, ⟨"m__V"⟩⟩]),
        (⟨"I"⟩, [⟨.publicInstance, ⟨"m__V"⟩⟩]), (.object, [])] := by
    decide +kernel
  have coherent : (Loader.ofDecls defaulting).IsCoherent :=
    Loader.isCoherent_ofDecls (by decide +kernel)
  generalize links : (link {} (.callStatic "test" ⟨"A"⟩ ⟨"main__V"⟩) []
    (Loader.ofDecls defaulting)).result = result at told
  cases result with
  | error => cases told
  | ok program =>
    obtain ⟨analysis, after, ends, holds⟩ := link_holdsReached coherent.summary coherent.nodup links
    exact ⟨program, analysis, after, rfl, ends, holds, Option.some.inj told⟩

end ClassLinker
