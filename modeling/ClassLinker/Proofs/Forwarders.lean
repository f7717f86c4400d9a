import ClassLinker.Proofs.Bridges
import ClassLinker.Proofs.Courses
import ClassLinker.Proofs.References

/-!
# Every forwarder gets its code

What an analysis has added to a class is made later, from declarations that are searched for anew:
that of the interface which a bridge forwards to, and that of the first ancestor which declares the
target of a proxy. These searches cannot fail. A bridge has been added for a default method that its
interface declares (`State.Valid.exists_default`), and a proxy for a method that some ancestor
declares with code, which no bridge can have replaced (`State.Valid.exists_own`).

So `Workbench.members` makes one method for each one that has been added to the class and is
reachable, and for nothing else, unless a declaration cannot be loaded
(`Workbench.members_materialize`). Only the summaries of the loader must be those of its
declarations.
-/

namespace ClassLinker

variable {setting : Setting} {state : State} {loader after : Loader} {bench : Workbench}
variable {analysis : Analysis} {allow : Bool} {requirement : Requirement}
variable {name owner : ClassName} {cls record : ClassRecord} {method called : MethodName}
variable {entry : VersionedDecl} {error : LoadError}

/-! ### What is to be made -/

/-- The summary of every class that is declared is that of its declaration. -/
def Loader.Summarizes (loader : Loader) : Prop :=
  ∀ {name entry}, loader.Declares name entry → loader.knows name = some entry.decl.summary

/-- The last of some requests has been one for a declaration, which has failed. -/
def Loader.EndsIn (loader : Loader) (error : LoadError) (after : Loader) : Prop :=
  ∃ later name, loader.Loads later ∧ later.loadDecl name = (.error error, after)

/-- The reachable methods that have been added to the class, with what they forward to, in order. -/
def ClassRecord.forwarders (cls : ClassRecord) : List (MethodId × Forwarder) :=
  cls.reached.filterMap fun method => method.forwarder.map fun forwarder => (method.id, forwarder)

namespace Analysis

/-- The class has the public method, and not for its having been added. -/
def HasOwn (analysis : Analysis) (owner : ClassName) (method : MethodName) : Prop :=
  ∃ entry, analysis.method? ⟨owner, .publicInstance, method⟩ = some entry ∧
    entry.isPresent = true ∧ entry.forwarder = none

/-- The class is the first of the ancestors that has the public method of its own. -/
def IsFirstOwner (analysis : Analysis) (cls : ClassRecord) (method : MethodName)
    (owner : ClassName) : Prop :=
  analysis.HasOwn owner method ∧ ∃ before after, cls.ancestors = before ++ owner :: after ∧
    ∀ other ∈ before, ¬ analysis.HasOwn other method

/-- This is the code of a method that has been added to the class. A bridge calls the method of the
same name that its interface declares, without dispatch. A proxy calls its target on the class
itself, with dispatch, and gives back undefined if the target is declared to have no result. Both
pass on their parameters, which are those of the method that they forward to. -/
inductive Forwards (analysis : Analysis) (loader : Loader) (cls : ClassRecord)
    (method : MethodName) : Forwarder → MethodDecl → Prop
  | bridge {interface : ClassName} {entry : VersionedDecl} {target decl : MethodDecl}
      (declares : loader.Declares interface entry)
      (has : entry.decl.method? .publicInstance method = some target)
      (params : decl.params = target.params) (result : decl.result = target.result)
      (body : decl.body =
        some (.callDirect interface .publicInstance .self method (forwarded decl.params))) :
      Forwards analysis loader cls method (.bridge interface) decl
  | proxy {called : MethodName} {owner : ClassName} {entry : VersionedDecl}
      {target decl : MethodDecl} (continues : called.matchesProxy method = true)
      (first : analysis.IsFirstOwner cls called owner) (declares : loader.Declares owner entry)
      (has : entry.decl.method? .publicInstance called = some target)
      (params : decl.params = target.params) (result : decl.result = .object)
      (silent : target.result = .void → decl.body =
        some (.block [.call cls.name .self called (forwarded decl.params), .undefined]))
      (speaks : target.result ≠ .void → decl.body =
        some (.call cls.name .self called (forwarded decl.params))) :
      Forwards analysis loader cls method (.proxy called) decl

theorem Forwards.isSome_body {forwarder : Forwarder} {decl : MethodDecl}
    (forwards : analysis.Forwards loader cls method forwarder decl) : decl.body.isSome = true := by
  cases forwards with
  | bridge _ _ _ _ body => rw [body]; rfl
  | @proxy _ _ _ target _ _ _ _ _ _ _ silent speaks =>
    by_cases void : target.result = .void
    · rw [silent void]; rfl
    · rw [speaks void]; rfl

/-- The method is made for one that has been added to the class. -/
structure Materializes (analysis : Analysis) (loader : Loader) (cls : ClassRecord)
    (item : MethodId × Forwarder) (decl : MethodDecl) : Prop where
  key : (⟨decl.space, decl.name⟩ : MethodKey) = item.1.key
  code : analysis.Forwards loader cls item.1.name item.2 decl

end Analysis

/-! ### Targets are declared -/

/-- A method that the summary of a class lists is found in the class. -/
theorem ClassDecl.exists_method? {decl : ClassDecl} {summary : MethodSummary}
    (mem : summary ∈ decl.summary.methods) :
    ∃ target, decl.method? summary.space summary.name = some target := by
  obtain ⟨target, listed, rfl⟩ := List.mem_map.1 mem
  refine Option.isSome_iff_exists.1 (List.find?_isSome.2 ⟨target, listed, ?_⟩)
  simp [MethodDecl.summary]

/-- What a class of the universe has when it is linked is in every declaration of it. -/
theorem Loader.Summarizes.exists_method? (summarizes : loader.Summarizes) {key : MethodKey}
    {declared : MethodRecord} (known : cls.summary = loader.knows name)
    (has : cls.fresh.method? key = some declared) (declares : loader.Declares name entry) :
    ∃ target, entry.decl.method? key.space key.name = some target := by
  obtain ⟨summary, knows, listed, mem, rfl, _⟩ := ClassRecord.exists_declared has
  rw [known, summarizes declares] at knows
  obtain rfl := Option.some.inj knows
  exact ClassDecl.exists_method? mem

namespace State

/-- The interface of a bridge declares the method. -/
theorem Valid.exists_default (valid : state.Valid setting) (fair : setting.IsFair)
    (bridged : state.Bridged setting) (world : setting.world = loader.knows)
    (summarizes : loader.Summarizes) (found : state.class? name = some cls)
    (added : state.forwarder? ⟨name, .publicInstance, method⟩ = some (.bridge owner))
    (declares : loader.Declares owner entry) :
    ∃ target, entry.decl.method? .publicInstance method = some target := by
  obtain ⟨_, first, _⟩ := bridged _ _ added
  obtain ⟨_, record, linked, _, has⟩ := exists_of_mem_defaultOwnersIn
    (Universe.follows_classes fair.rooted) (valid.follows.classes_eq found)
    (List.mem_of_head? first)
  obtain ⟨declared, has, _⟩ := (Option.any_eq_true ..).1 has
  have links := Universe.classes_eq_some.1 linked
  rw [← links.fresh_eq] at has
  exact summarizes.exists_method? (links.summary_eq.trans (congrFun world owner)) has declares

/-- A class that has a method of its own declares it. -/
theorem Valid.exists_own (valid : state.Valid setting) (world : setting.world = loader.knows)
    (summarizes : loader.Summarizes) (own : state.result.HasOwn owner method)
    (declares : loader.Declares owner entry) :
    ∃ target, entry.decl.method? .publicInstance method = some target := by
  obtain ⟨known, at_, present, own⟩ := own
  rw [state.method?_result] at at_
  obtain ⟨record, found, has⟩ := Option.bind_eq_some_iff.1 at_
  cases (valid.classes found).entries has with
  | declared has =>
    have known := (valid.follows.summary_eq found).trans (congrFun world owner)
    exact summarizes.exists_method? known has declares
  | missing _ _ absent => rw [present] at absent; cases absent
  | added _ _ _ _ _ _ _ _ _ forwarder => rw [own] at forwarder; cases forwarder

/-- Code that a class declares stays its own. -/
theorem Valid.hasOwn (valid : state.Valid setting) (found : state.class? owner = some record)
    (has : record.fresh.hasConcrete method = true) : state.result.HasOwn owner method := by
  obtain ⟨declared, declares, concrete⟩ := (Option.any_eq_true ..).1 has
  obtain ⟨known, entered⟩ := (valid.classes found).declared declares
  refine ⟨known, ?_, ?_⟩
  · rw [state.method?_result, State.method?, found]
    exact entered
  · cases (valid.classes found).entries entered with
    | declared _ _ present _ own => exact ⟨present, own⟩
    | missing lacks => rw [lacks] at declares; cases declares
    | added _ _ _ _ _ replaces => rw [replaces _ declares] at concrete; cases concrete

/-- What is offered above a class is code that some ancestor declares. -/
theorem Valid.exists_of_offers (valid : state.Valid setting) (found : state.class? name = some cls)
    (offers : setting.Offers name method) : ∃ owner ∈ cls.ancestors, ∃ record,
      state.class? owner = some record ∧ record.fresh.hasConcrete method = true := by
  obtain ⟨fresh, owner, linked, known, above, declares, has⟩ := offers
  obtain rfl := Option.some.inj (known.symm.trans (valid.follows.classes_eq found))
  obtain ⟨record, at_⟩ := valid.follows.ancestor found above
  obtain rfl := Option.some.inj (declares.symm.trans (valid.follows.classes_eq at_))
  exact ⟨owner, above, record, at_, has⟩

/-- Some ancestor has the target of a proxy of its own. -/
theorem Valid.exists_firstOwner (valid : state.Valid setting)
    (found : state.class? name = some cls) (offers : setting.Offers name called) :
    ∃ owner, Workbench.declaringClass? state.result cls called = some owner ∧
      state.result.IsFirstOwner cls called owner := by
  have own_iff : ∀ other, (state.result.method? ⟨other, .publicInstance, called⟩).any
      (fun entry => entry.isPresent && entry.forwarder.isNone) = true ↔
        state.result.HasOwn other called := by
    intro other
    simp only [Option.any_eq_true, Bool.and_eq_true, Option.isNone_iff_eq_none]
    rfl
  obtain ⟨upper, above, record, at_, has⟩ := valid.exists_of_offers found offers
  have isSome : (Workbench.declaringClass? state.result cls called).isSome = true :=
    List.find?_isSome.2 ⟨upper, above, (own_iff upper).2 (valid.hasOwn at_ has)⟩
  obtain ⟨owner, chosen⟩ := Option.isSome_iff_exists.1 isSome
  obtain ⟨own, before, rest, split, others⟩ := List.find?_eq_some_iff_append.1 chosen
  refine ⟨owner, chosen, (own_iff owner).1 own, before, rest, split, fun other mem own => ?_⟩
  have lacks := others other mem
  rw [(own_iff other).2 own] at lacks
  cases lacks

end State

/-! ### Workbenches -/

namespace Workbench

/-- The declarations at hand are those of the loader, and the loader of the workbench is a later
one. -/
structure Serves (bench : Workbench) (loader : Loader) : Prop where
  loads : loader.Loads bench.loader
  decls : ∀ {name decl}, bench.decls[name]? = some decl →
    ∃ entry, loader.Declares name entry ∧ entry.decl = decl

/-- The outcome of some work: nothing has been noted, and either a declaration could not be loaded
or the result is as it should be. -/
structure Yields {α : Type} (bench : Workbench) (loader : Loader)
    (outcome : Except LoadError α × Workbench) (result : α → Prop) : Prop where
  serves : outcome.2.Serves loader
  loads : bench.loader.Loads outcome.2.loader
  quiet : outcome.2.events = bench.events
  answer : (∃ error, outcome.1 = .error error ∧ bench.loader.EndsIn error outcome.2.loader) ∨
    ∃ value, outcome.1 = .ok value ∧ result value

/-- A workbench without declarations serves any earlier loader. -/
theorem serves_of_loads (loads : loader.Loads after) : Serves { loader := after } loader where
  loads := loads
  decls found := by
    rw [Std.ExtTreeMap.getElem?_empty] at found
    cases found

/-- So does a workbench with one more declaration of the loader. -/
theorem Serves.lay (serves : bench.Serves loader)
    (declares : loader.Declares entry.decl.name entry) : (bench.lay entry.decl).Serves loader where
  loads := serves.loads
  decls {name decl} found := by
    simp only [Workbench.lay, Std.ExtTreeMap.getElem?_insert, Std.compare_eq_iff_eq] at found
    split at found
    · rename_i same
      exact ⟨entry, same ▸ declares, Option.some.inj found⟩
    · exact serves.decls found

namespace Yields

variable {α β : Type} {outcome : Except LoadError α × Workbench} {result : α → Prop}

/-- The error of some work is that of a loader. -/
theorem of_error (yields : bench.Yields loader outcome result) {bench' : Workbench}
    (fails : outcome = (.error error, bench')) {result' : β → Prop} :
    bench.Yields loader (.error error, bench') result' := by
  subst fails
  refine ⟨yields.serves, yields.loads, yields.quiet, .inl ⟨error, rfl, ?_⟩⟩
  rcases yields.answer with ⟨_, same, fails⟩ | ⟨_, same, _⟩ <;> cases same
  exact fails

theorem of_ok (yields : bench.Yields loader outcome result) {value : α} {bench' : Workbench}
    (answers : outcome = (.ok value, bench')) :
    bench.Yields loader (.ok value, bench') result ∧ result value := by
  subst answers
  refine ⟨yields, ?_⟩
  rcases yields.answer with ⟨_, same, _⟩ | ⟨_, same, holds⟩ <;> cases same
  exact holds

/-- A result can be something else at the same time. -/
theorem of_result (yields : bench.Yields loader outcome result) {value : β} {result' : β → Prop}
    (holds : result' value) : bench.Yields loader (.ok value, outcome.2) result' :=
  ⟨yields.serves, yields.loads, yields.quiet, .inr ⟨value, rfl, holds⟩⟩

/-- Work can go on at the workbench that other work has left. -/
theorem trans {outcome' : Except LoadError β × Workbench} {result' : β → Prop}
    (early : bench.Yields loader outcome result)
    (late : outcome.2.Yields loader outcome' result') : bench.Yields loader outcome' result' := by
  refine ⟨late.serves, early.loads.trans late.loads, late.quiet.trans early.quiet, ?_⟩
  refine late.answer.imp_left ?_
  rintro ⟨error, same, later, name, loads, fails⟩
  exact ⟨error, same, later, name, early.loads.trans loads, fails⟩

/-- Work can go on with a result. -/
theorem map (yields : bench.Yields loader outcome result) {make : α → β} {result' : β → Prop}
    (imp : ∀ value, result value → result' (make value)) :
    bench.Yields loader (outcome.1.map make, outcome.2) result' := by
  refine ⟨yields.serves, yields.loads, yields.quiet, ?_⟩
  rcases yields.answer with ⟨error, same, fails⟩ | ⟨value, same, holds⟩
  · exact .inl ⟨error, by rw [same]; rfl, fails⟩
  · exact .inr ⟨make value, by rw [same]; rfl, imp value holds⟩

end Yields

/-- A declaration that is fetched is one of the loader. -/
theorem yields_fetch (serves : bench.Serves loader) (name : ClassName) :
    bench.Yields loader (bench.fetch name) fun decl =>
      ∃ entry, loader.Declares name entry ∧ entry.decl = decl := by
  unfold fetch
  cases at_hand : bench.decls[name]? with
  | some decl => exact ⟨serves, .refl, rfl, .inr ⟨decl, rfl, serves.decls at_hand⟩⟩
  | none =>
    have load : bench.loader.Load (bench.loader.loadDecl name).2 := .decl name
    cases asked : bench.loader.loadDecl name with
    | mk answer later =>
      rw [asked] at load
      have loads : loader.Loads later := .tail serves.loads load
      cases answer with
      | error error =>
        have fails : bench.loader.EndsIn error later := ⟨_, name, .refl, asked⟩
        exact ⟨⟨loads, serves.decls⟩, .single load, rfl, .inl ⟨error, rfl, fails⟩⟩
      | ok entry =>
        have declares : loader.Declares name entry := ⟨_, serves.loads, congrArg Prod.fst asked⟩
        refine ⟨⟨loads, fun {other decl} found => ?_⟩, .single load, rfl,
          .inr ⟨_, rfl, entry, declares, rfl⟩⟩
        simp only [Std.ExtTreeMap.getElem?_insert, Std.compare_eq_iff_eq] at found
        split at found
        · rename_i same
          exact ⟨entry, same ▸ declares, Option.some.inj found⟩
        · exact serves.decls found

/-- A method that all declarations of the class have is found. -/
theorem yields_targetIn (serves : bench.Serves loader) (event : Event)
    (has : ∀ entry, loader.Declares owner entry →
      ∃ target, entry.decl.method? .publicInstance method = some target) :
    bench.Yields loader (bench.targetIn owner method event) fun found =>
      ∃ entry target, loader.Declares owner entry ∧
        entry.decl.method? .publicInstance method = some target ∧ found = some target := by
  have fetched := yields_fetch serves owner
  unfold targetIn
  split
  · rename_i fails
    exact fetched.of_error fails
  · rename_i answers
    obtain ⟨fetched, entry, declares, rfl⟩ := fetched.of_ok answers
    obtain ⟨target, found⟩ := has entry declares
    rw [found]
    exact fetched.of_result ⟨entry, target, declares, found, rfl⟩

end Workbench

/-! ### Made methods -/

theorem ClassRecord.exists_of_mem_forwarders {item : MethodId × Forwarder}
    (mem : item ∈ cls.forwarders) :
    ∃ key entry, cls.method? key = some entry ∧ entry.id = item.1 ∧
      entry.forwarder = some item.2 := by
  obtain ⟨entry, reached, same⟩ := List.mem_filterMap.1 mem
  obtain ⟨forwarder, forwards, rfl⟩ := Option.map_eq_some_iff.1 same
  obtain ⟨⟨key, has⟩, _⟩ := ClassRecord.mem_reached.1 reached
  exact ⟨key, entry, has, rfl, forwards⟩

/-- The methods of a class are ordered by their keys. -/
theorem ClassRecord.Valid.pairwise_methodList (valid : cls.Valid setting) :
    cls.methodList.Pairwise fun first second => compare first.id.key second.id.key = .lt := by
  have keyed : ∀ item ∈ cls.methods.toList, item.2.id.key = item.1 := by
    intro item listed
    have has : cls.method? item.1 = some item.2 :=
      Std.ExtTreeMap.mem_toList_iff_getElem?_eq_some.1 listed
    rw [(valid.entries has).id_eq]
    rfl
  refine List.pairwise_map.2 (Std.ExtTreeMap.ordered_keys_toList.imp_of_mem ?_)
  intro first second memFirst memSecond less
  rw [keyed first memFirst, keyed second memSecond]
  exact less

/-- So are those that have been added to it. -/
theorem ClassRecord.Valid.pairwise_forwarders (valid : cls.Valid setting) :
    cls.forwarders.Pairwise fun first second => compare first.1.key second.1.key = .lt := by
  refine List.pairwise_filterMap.2 ((valid.pairwise_methodList.filter _).imp ?_)
  intro first second less item at_ item' at_'
  obtain ⟨_, _, rfl⟩ := Option.map_eq_some_iff.1 at_
  obtain ⟨_, _, rfl⟩ := Option.map_eq_some_iff.1 at_'
  exact less

/-- A method that has been added is a public one of the class. -/
theorem State.Valid.forwarder?_of_mem (valid : state.Valid setting)
    (found : state.class? name = some cls) {item : MethodId × Forwarder}
    (mem : item ∈ cls.forwarders) :
    item.1 = ⟨name, .publicInstance, item.1.name⟩ ∧
      state.forwarder? ⟨name, .publicInstance, item.1.name⟩ = some item.2 := by
  obtain ⟨key, entry, has, id_eq, forwards⟩ := ClassRecord.exists_of_mem_forwarders mem
  have form := (valid.classes found).entries has
  have space : key.space = .publicInstance := by
    cases form with
    | added _ space => exact space
    | declared _ _ _ _ own | missing _ _ _ own => rw [forwards] at own; cases own
  have named : item.1 = ⟨name, .publicInstance, key.name⟩ := by
    rw [← id_eq, form.id_eq, ← space, ← valid.follows.name_eq found]
    rfl
  rw [named]
  refine ⟨rfl, State.forwarder?_eq_some.2 ⟨cls, entry, found, ?_, forwards⟩⟩
  rw [← space]
  exact has

namespace Workbench

section

variable (reaches : loader.Reaches allow requirement state) (summarizes : loader.Summarizes)
  (found : state.class? name = some cls)

include reaches summarizes found

/-- Every method that has been added to the class gets its code. -/
theorem yields_member {item : MethodId × Forwarder} (mem : item ∈ cls.forwarders)
    (serves : bench.Serves loader) :
    bench.Yields loader (bench.member state.result cls item.1 item.2) fun made =>
      ∃ decl, made = some decl ∧ state.result.Materializes loader cls item decl := by
  have valid := reaches.valid
  have bridged := State.bridged_of_reached reaches.isFair
    (Turns.moves reaches.isFair reaches.turns)
  obtain ⟨named, added⟩ := valid.forwarder?_of_mem found mem
  have key_eq : (⟨.publicInstance, item.1.name⟩ : MethodKey) = item.1.key :=
    (congrArg MethodId.key named).symm
  obtain ⟨id, forwarder⟩ := item
  cases forwarder with
  | bridge interface =>
    have targets : ∀ entry, loader.Declares interface entry →
        ∃ target, entry.decl.method? .publicInstance id.name = some target := fun _ declares =>
      valid.exists_default reaches.isFair bridged rfl summarizes found added declares
    refine (yields_targetIn serves (.noDefaultMethod id interface) targets).map ?_
    rintro _ ⟨entry, target, declares, has, rfl⟩
    exact ⟨_, rfl, key_eq, .bridge declares has rfl rfl rfl⟩
  | proxy called =>
    obtain ⟨_, continues, offers⟩ := bridged _ _ added
    obtain ⟨owner, chosen, first⟩ := valid.exists_firstOwner found offers
    have targets : ∀ entry, loader.Declares owner entry →
        ∃ target, entry.decl.method? .publicInstance called = some target := fun _ declares =>
      valid.exists_own rfl summarizes first.1 declares
    simp only [member, chosen]
    refine (yields_targetIn serves (.noProxyTarget id called) targets).map ?_
    rintro _ ⟨entry, target, declares, has, rfl⟩
    have target_name : target.name = called := (ClassDecl.mem_of_method? has).2.2
    refine ⟨_, rfl, key_eq, .proxy continues first declares has rfl rfl ?_ ?_⟩
    · intro silent
      simp [MethodDecl.proxy, silent, target_name]
    · intro speaks
      simp [MethodDecl.proxy, speaks, target_name]

/-- So do some of them in turn. -/
theorem yields_membersAmong {items : List (MethodId × Forwarder)} (sub : items ⊆ cls.forwarders)
    (serves : bench.Serves loader) :
    bench.Yields loader (bench.membersAmong state.result cls items) fun made =>
      List.Forall₂ (state.result.Materializes loader cls) items made := by
  induction items generalizing bench with
  | nil => exact ⟨serves, .refl, rfl, .inr ⟨[], rfl, .nil⟩⟩
  | cons first rest ih =>
    have made := yields_member reaches summarizes found (sub List.mem_cons_self) serves
    unfold membersAmong
    split
    · rename_i fails
      exact made.of_error fails
    · rename_i bench' answers
      obtain ⟨made, decl, rfl, materializes⟩ := made.of_ok answers
      have later : bench'.Yields loader
          ((bench'.membersAmong state.result cls rest).1.map ([decl] ++ ·),
            (bench'.membersAmong state.result cls rest).2)
          (List.Forall₂ (state.result.Materializes loader cls) (first :: rest)) :=
        (ih (List.subset_of_cons_subset sub) made.serves).map fun _ more => .cons materializes more
      exact made.trans later

end

/-- Making the methods of a class that an analysis has added and that are reachable fails only if a
declaration cannot be loaded. Otherwise it makes one for each of them and nothing else, in the order
of their keys, and notes no event. -/
theorem members_materialize (summarizes : loader.Summarizes)
    (ends : analyze allow requirement loader = (.ok analysis, after))
    (found : analysis.class? name = some cls) (serves : bench.Serves loader) :
    bench.Yields loader (bench.members analysis cls) fun made =>
      List.Forall₂ (analysis.Materializes loader cls) cls.forwarders made ∧
        (made.map fun decl => (⟨decl.space, decl.name⟩ : MethodKey)).Pairwise
          (fun first second => compare first second = .lt) ∧
        ∀ decl ∈ made, decl.body.isSome = true := by
  obtain ⟨state, reaches, known, rfl⟩ := exists_reached_of_analyze ends found
  have made := yields_membersAmong reaches summarizes known (List.Subset.refl cls.forwarders) serves
  refine ⟨made.serves, made.loads, made.quiet, made.answer.imp_right ?_⟩
  rintro ⟨decls, answers, all⟩
  refine ⟨decls, answers, all, ?_, fun decl mem => ?_⟩
  · have keys : cls.forwarders.map (fun item => item.1.key) =
        decls.map fun decl => (⟨decl.space, decl.name⟩ : MethodKey) := by
      rw [← List.forall₂_eq_eq_eq, List.forall₂_map_left_iff, List.forall₂_map_right_iff]
      exact all.imp fun _ _ materializes => materializes.key.symm
    rw [← keys]
    exact List.pairwise_map.2 (reaches.valid.classes known).pairwise_forwarders
  · obtain ⟨item, _, materializes⟩ := exists_of_forall₂_left all.flip mem
    exact materializes.code.isSome_body

end Workbench

/-- A class that inherits a default method, which is called both by its name and by that of its
proxy. -/
def forwarding : List ClassDecl :=
  [.ofMethods .object .plain [] [],
    .ofMethods ⟨"I"⟩ .interface [] [.plain .publicInstance ⟨"m__V"⟩ (some .skip)],
    .ofMethods ⟨"A"⟩ .plain [.object, ⟨"I"⟩]
      [.plain .constructor .defaultConstructor (some .skip),
        .plain .publicStatic ⟨"main__V"⟩ (some (.block
          [.call ⟨"I"⟩ (.new ⟨"A"⟩ .defaultConstructor []) ⟨"m__V"⟩ [],
            .call ⟨"A"⟩ (.new ⟨"A"⟩ .defaultConstructor []) ⟨"m__"⟩ []]))]]

/-- The class gets a proxy and a bridge, though the bridge has the name of the target of the
proxy. -/
theorem members_materialize_forwarding :
    ∃ analysis after cls made, analyze true (.callStatic "test" ⟨"A"⟩ ⟨"main__V"⟩)
        (Loader.ofDecls forwarding) = (.ok analysis, after) ∧
      analysis.class? ⟨"A"⟩ = some cls ∧
      (Workbench.members { loader := after } analysis cls).1 = .ok made ∧
      cls.forwarders = [(⟨⟨"A"⟩, .publicInstance, ⟨"m__"⟩⟩, .proxy ⟨"m__V"⟩),
        (⟨⟨"A"⟩, .publicInstance, ⟨"m__V"⟩⟩, .bridge ⟨"I"⟩)] ∧
      List.Forall₂ (analysis.Materializes (Loader.ofDecls forwarding) cls) cls.forwarders made := by
  have summarizes : (Loader.ofDecls forwarding).Summarizes :=
    (Loader.isFaithful_ofDecls forwarding).summary
  have told : (analyze true (.callStatic "test" ⟨"A"⟩ ⟨"main__V"⟩)
      (Loader.ofDecls forwarding)).1.toOption.map (fun analysis =>
        ((analysis.class? ⟨"A"⟩).map ClassRecord.forwarders,
          (analysis.class? ⟨"A"⟩).map fun cls => (Workbench.members { loader := (analyze true
            (.callStatic "test" ⟨"A"⟩ ⟨"main__V"⟩) (Loader.ofDecls forwarding)).2 }
              analysis cls).1.toOption.isSome)) =
      some (some [(⟨⟨"A"⟩, .publicInstance, ⟨"m__"⟩⟩, .proxy ⟨"m__V"⟩),
        (⟨⟨"A"⟩, .publicInstance, ⟨"m__V"⟩⟩, .bridge ⟨"I"⟩)], some true) := by
    decide +kernel
  obtain ⟨analysis, after, ends, told⟩ := exists_of_toOption_map told
  rw [ends] at told
  obtain ⟨forwarders, succeeds⟩ := Prod.mk.inj told
  obtain ⟨cls, found, forwarders⟩ := Option.map_eq_some_iff.1 forwarders
  rw [found] at succeeds
  have loads := (analyze_cases ends).1
  have serves := Workbench.serves_of_loads loads
  have yields := Workbench.members_materialize summarizes ends found serves
  rcases yields.answer with ⟨error, fails, _⟩ | ⟨made, answers, all, _⟩
  · rw [Option.map_some, fails] at succeeds
    cases succeeds
  · exact ⟨analysis, after, cls, made, ends, found, answers, forwarders, all⟩

end ClassLinker
