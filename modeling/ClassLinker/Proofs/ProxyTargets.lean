import ClassLinker.Proofs.Endings
import ClassLinker.Proofs.Specificity

/-!
# Targets that are chosen early

The target of a proxy is chosen once, in the step that enters the proxy. The class that it is looked
up in does not depend on when that is: a linked class has all its ancestors, and what a proxy can
call in a class is declared (`State.Valid.matches_fresh`). But which result types are more specific
depends on the classes that are linked by then, and a run goes on to link others. So the target is
the most specific match in the end exactly if no other match, whose result class had not been linked
when the proxy was entered, turns out to be more specific (`targetsMostSpecific_iff`).

* `FirstMatch`: the class that the target of a proxy is looked up in;
* `TargetsMostSpecific`: the target is the most specific match in that class;
* `Loader.EntersProxy`: the step of a run that enters a proxy with its target.
-/

namespace ClassLinker

variable {setting : Setting} {state next early later : State} {world : Universe} {classes : Lookup}
variable {name : ClassName} {cls record : ClassRecord} {proxy method other target : MethodName}
variable {allow : Bool} {requirement : Requirement} {loader : Loader}

/-! ### The class that a target is looked up in -/

/-- The class, its super class, and so on, as far as they are known. -/
inductive SuperChain (classes : Lookup) : ClassName → List ClassRecord → Prop
  | unknown {name : ClassName} (unknown : classes name = none) : SuperChain classes name []
  | highest {name : ClassName} {cls : ClassRecord} (found : classes name = some cls)
      (highest : cls.superClass = none) : SuperChain classes name [cls]
  | above {name parent : ClassName} {cls : ClassRecord} {chain : List ClassRecord}
      (found : classes name = some cls) (extends_ : cls.superClass = some parent)
      (upper : SuperChain classes parent chain) : SuperChain classes name (cls :: chain)

/-- Among the super classes of a class and then its ancestors, this is the first one with a method
that the proxy can call. -/
structure FirstMatch (classes : Lookup) (name : ClassName) (proxy : MethodName)
    (record : ClassRecord) : Prop where
  first : ∃ cls chain before rest, classes name = some cls ∧ SuperChain classes name chain ∧
    chain ++ cls.ancestors.filterMap classes = before ++ record :: rest ∧
      ∀ earlier ∈ before, ∀ method, ¬ earlier.Matches proxy method
  some_match : ∃ method, record.Matches proxy method

/-- The result type of the first method is known and more specific than that of the second one. -/
def MoreSpecificResult (classes : Lookup) (method other : MethodName) : Prop :=
  ∃ left right, method.encodedResult? = some left ∧ other.encodedResult? = some right ∧
    MoreSpecific classes left right

/-- The target of a proxy of a class is declared in the first class with a match, and none of the
other matches there has a more specific result type. -/
def TargetsMostSpecific (classes : Lookup) (name : ClassName) (proxy target : MethodName) : Prop :=
  ∃ record, FirstMatch classes name proxy record ∧ record.Matches proxy target ∧
    ∀ other, record.Matches proxy other → ¬ MoreSpecificResult classes other target

theorem SuperChain.unique {chain others : List ClassRecord} (first : SuperChain classes name chain)
    (second : SuperChain classes name others) : chain = others := by
  induction first generalizing others with
  | unknown unknown =>
    cases second with
    | unknown => rfl
    | highest found | above found => simp [unknown] at found
  | highest found highest =>
    cases second with
    | unknown unknown => simp [found] at unknown
    | highest found' => rw [Option.some.inj (found.symm.trans found')]
    | above found' extends_ =>
      obtain rfl := Option.some.inj (found.symm.trans found')
      simp [highest] at extends_
  | above found extends_ _ ih =>
    cases second with
    | unknown unknown => simp [found] at unknown
    | highest found' highest =>
      obtain rfl := Option.some.inj (found.symm.trans found')
      simp [extends_] at highest
    | above found' extends' upper =>
      obtain rfl := Option.some.inj (found.symm.trans found')
      obtain rfl := Option.some.inj (extends_.symm.trans extends')
      rw [ih upper]

/-- Two splits of a list at the first element with a property are the same. -/
theorem eq_of_first_splits {α : Type} (has : α → Prop) {before before' rest rest' : List α}
    {first first' : α} (same : before ++ first :: rest = before' ++ first' :: rest')
    (lacks : ∀ x ∈ before, ¬ has x) (lacks' : ∀ x ∈ before', ¬ has x) (here : has first)
    (here' : has first') : first = first' := by
  induction before generalizing before' with
  | nil =>
    cases before' with
    | nil => exact (List.cons.inj same).1
    | cons x _ => exact absurd ((List.cons.inj same).1 ▸ here) (lacks' x List.mem_cons_self)
  | cons x before ih =>
    cases before' with
    | nil => exact absurd ((List.cons.inj same).1 ▸ here') (lacks x List.mem_cons_self)
    | cons y before' =>
      exact ih (List.cons.inj same).2 (fun z mem => lacks z (List.mem_cons_of_mem _ mem))
        fun z mem => lacks' z (List.mem_cons_of_mem _ mem)

/-- There is at most one first match. -/
theorem FirstMatch.unique (first : FirstMatch classes name proxy cls)
    (second : FirstMatch classes name proxy record) : cls = record := by
  obtain ⟨⟨lower, chain, before, rest, found, above, split, lacks⟩, here⟩ := first
  obtain ⟨⟨lower', chain', before', rest', found', above', split', lacks'⟩, here'⟩ := second
  obtain rfl := Option.some.inj (found.symm.trans found')
  obtain rfl := above.unique above'
  exact eq_of_first_splits (fun cls => ∃ method, ClassRecord.Matches cls proxy method)
    (split.symm.trans split') (fun x mem ⟨method, has⟩ => lacks x mem method has)
    (fun x mem ⟨method, has⟩ => lacks' x mem method has) here here'

/-- A class with a match is the first one for itself. -/
theorem FirstMatch.eq_of_matches (first : FirstMatch classes name proxy record)
    (found : classes name = some cls) (has : cls.Matches proxy method) : record = cls := by
  refine first.unique ?_
  obtain ⟨⟨_, chain, _, _, _, above, _⟩, _⟩ := first
  obtain ⟨rest, rfl⟩ : ∃ rest, chain = cls :: rest := by
    cases above with
    | unknown unknown =>
      rw [found] at unknown
      cases unknown
    | highest at_ | above at_ =>
      obtain rfl := Option.some.inj (found.symm.trans at_)
      exact ⟨_, rfl⟩
  exact ⟨⟨cls, _, [], _, found, above, rfl, by simp⟩, method, has⟩

/-! ### What does not change -/

/-- What a proxy can call in a linked class is what the class declares: nothing that is added has
code of its own, and no declared code is replaced. -/
theorem State.Valid.matches_fresh (valid : state.Valid setting)
    (found : state.class? name = some cls) :
    cls.fresh.Matches proxy method ↔ cls.Matches proxy method := by
  have validClass := valid.classes found
  constructor
  · rintro ⟨declared, declares, present, isAbstract, _, continues⟩
    obtain ⟨entry, has⟩ := validClass.declared declares
    refine ⟨entry, has, ?_⟩
    cases validClass.entries has with
    | declared declares' _ isPresent isAbstract' forwarder =>
      obtain rfl := Option.some.inj (declares.symm.trans declares')
      exact ⟨isPresent, isAbstract'.trans isAbstract, forwarder, continues⟩
    | missing lacks =>
      rw [declares] at lacks
      cases lacks
    | added _ _ _ _ _ replaces =>
      have absurd_ := replaces declared declares
      rw [MethodRecord.isConcrete, present, isAbstract] at absurd_
      cases absurd_
  · rintro ⟨entry, has, present, isAbstract, own, continues⟩
    cases validClass.entries has with
    | @declared declared declares _ isPresent isAbstract' forwarder =>
      have shape := ClassRecord.declared_shape declares
      exact ⟨declared, declares, shape.2.1, isAbstract' ▸ isAbstract, shape.2.2, continues⟩
    | missing _ _ isPresent =>
      rw [present] at isPresent
      cases isPresent
    | added _ _ _ _ _ _ _ _ _ forwarder =>
      rw [own] at forwarder
      cases forwarder

/-- The second record is what has become of the class of the first one. -/
def State.Becomes (early later : State) (cls record : ClassRecord) : Prop :=
  ∃ name, early.class? name = some cls ∧ later.class? name = some record ∧ cls.Grows record

theorem State.Becomes.matches_iff (becomes : early.Becomes later cls record)
    (valid : early.Valid setting) (valid' : later.Valid setting) :
    record.Matches proxy method ↔ cls.Matches proxy method := by
  obtain ⟨name, found, found', grows⟩ := becomes
  rw [← valid.matches_fresh found, ← valid'.matches_fresh found', grows.fresh_eq]

theorem State.Grows.becomes (grows : early.Grows later) (found : early.class? name = some cls) :
    ∃ record, later.class? name = some record ∧ early.Becomes later cls record := by
  obtain ⟨record, found', grown⟩ := grows.classes found
  exact ⟨record, found', name, found, found', grown⟩

theorem SuperChain.grow (follows : Follows world early.class?) (rooted : world.IsRooted)
    (grows : early.Grows later) {chain : List ClassRecord}
    (above : SuperChain early.class? name chain) (known : (early.class? name).isSome = true) :
    ∃ longer, SuperChain later.class? name longer ∧
      List.Forall₂ (early.Becomes later) chain longer := by
  induction above with
  | unknown unknown =>
    rw [unknown] at known
    cases known
  | highest found highest =>
    obtain ⟨record, found', grown⟩ := grows.classes found
    exact ⟨[record], .highest found' (grown.superClass_eq.trans highest),
      .cons ⟨_, found, found', grown⟩ .nil⟩
  | above found extends_ _ ih =>
    obtain ⟨record, found', grown⟩ := grows.classes found
    obtain ⟨parent, linked⟩ := follows.ancestor found (follows.superClass_mem rooted found extends_)
    obtain ⟨longer, upper, all⟩ := ih (linked ▸ rfl)
    exact ⟨record :: longer, .above found' (grown.superClass_eq.trans extends_) upper,
      .cons ⟨_, found, found', grown⟩ all⟩

theorem State.Grows.forall₂_filterMap (grows : early.Grows later) {names : List ClassName}
    (linked : ∀ name ∈ names, ∃ cls, early.class? name = some cls) :
    List.Forall₂ (early.Becomes later) (names.filterMap early.class?)
      (names.filterMap later.class?) := by
  induction names with
  | nil => exact .nil
  | cons name names ih =>
    obtain ⟨cls, found⟩ := linked name List.mem_cons_self
    obtain ⟨record, found', becomes⟩ := grows.becomes found
    rw [List.filterMap_cons_some found, List.filterMap_cons_some found']
    exact .cons becomes (ih fun other mem => linked other (List.mem_cons_of_mem _ mem))

/-- A list that is related to one that is split is split in the same place. -/
theorem exists_split_of_forall₂ {α : Type} {related : α → α → Prop} {before rest others : List α}
    {x : α} (all : List.Forall₂ related (before ++ x :: rest) others) :
    ∃ before' y rest', others = before' ++ y :: rest' ∧ related x y ∧
      ∀ z' ∈ before', ∃ z ∈ before, related z z' := by
  induction before generalizing others with
  | nil =>
    obtain ⟨y, rest', holds, _, rfl⟩ := List.forall₂_cons_left_iff.1 all
    exact ⟨[], y, rest', rfl, holds, by simp⟩
  | cons z before ih =>
    obtain ⟨z', others', holds, more, rfl⟩ := List.forall₂_cons_left_iff.1 all
    obtain ⟨before', y, rest', rfl, here, earlier⟩ := ih more
    refine ⟨z' :: before', y, rest', rfl, here, fun w mem => ?_⟩
    rcases List.mem_cons.1 mem with rfl | mem
    · exact ⟨z, List.mem_cons_self, holds⟩
    · obtain ⟨w', mem', holds⟩ := earlier w mem
      exact ⟨w', List.mem_cons_of_mem _ mem', holds⟩

/-- The class that the target of a proxy is looked up in stays the same. -/
theorem FirstMatch.grow (fair : setting.IsFair) (valid : early.Valid setting)
    (valid' : later.Valid setting) (grows : early.Grows later)
    (first : FirstMatch early.class? name proxy cls) :
    ∃ record, early.Becomes later cls record ∧ FirstMatch later.class? name proxy record := by
  obtain ⟨⟨lower, chain, before, rest, found, above, split, lacks⟩, method, here⟩ := first
  obtain ⟨lower', found', grown⟩ := grows.classes found
  obtain ⟨chain', above', all⟩ := above.grow valid.follows fair.rooted grows (found ▸ rfl)
  have searched : List.Forall₂ (early.Becomes later) (before ++ cls :: rest)
      (chain' ++ lower'.ancestors.filterMap later.class?) := by
    rw [← split, grown.ancestors_eq]
    exact List.rel_append all
      (grows.forall₂_filterMap fun _ mem => valid.follows.ancestor found mem)
  obtain ⟨before', record, rest', split', becomes, earlier⟩ := exists_split_of_forall₂ searched
  refine ⟨record, becomes, ⟨lower', chain', before', rest', found', above', split', ?_⟩, method,
    (becomes.matches_iff valid valid').2 here⟩
  intro cls' mem method has
  obtain ⟨cls, mem, becomes⟩ := earlier cls' mem
  exact lacks cls mem method ((becomes.matches_iff valid valid').1 has)

/-! ### What more linked classes change -/

/-- What turns out to be more specific has been so from the moment that its class was linked. -/
theorem MoreSpecific.of_later {left right : Ty} (grows : early.Grows later)
    (known : ∀ lower, left.baseName? = some lower → early.class? lower ≠ none)
    (specific : MoreSpecific later.class? left right) : MoreSpecific early.class? left right := by
  cases specific with
  | @below _ lower _ left_base right_base depth below =>
    obtain ⟨ne, record, found', above⟩ := below
    have base : left.baseName? = some lower := by rw [Ty.baseName?, left_base]
    obtain ⟨cls, found⟩ := Option.ne_none_iff_exists'.1 (known lower base)
    obtain ⟨record', same, grown⟩ := grows.classes found
    obtain rfl := Option.some.inj (found'.symm.trans same)
    exact .below left_base right_base depth ⟨ne, cls, found, grown.ancestors_eq ▸ above⟩
  | array deep => exact .array deep

/-- The class that the result type of a method is, or is an array of. -/
def MethodName.resultClass? (method : MethodName) : Option ClassName :=
  method.encodedResult?.bind Ty.baseName?

/-- Only a method whose result class has not been linked before can turn out to be more specific. -/
theorem MoreSpecificResult.of_later (grows : early.Grows later)
    (known : ∀ lower, other.resultClass? = some lower → early.class? lower ≠ none)
    (specific : MoreSpecificResult later.class? other target) :
    MoreSpecificResult early.class? other target := by
  obtain ⟨left, right, result, result', specific⟩ := specific
  refine ⟨left, right, result, result', specific.of_later grows fun lower base => known lower ?_⟩
  rw [MethodName.resultClass?, result, Option.bind_some, base]

/-! ### The choice -/

theorem State.Climbs.superChain {chain : List ClassRecord} (climbs : state.Climbs name chain) :
    SuperChain state.class? name chain := by
  induction climbs with
  | unlinked unlinked => exact .unknown unlinked
  | highest found highest => exact .highest found highest
  | above found extends_ _ ih => exact .above found extends_ ih

/-- The target of a proxy that is entered now is the most specific match by the classes that are
linked now. -/
theorem State.Valid.targetsMostSpecific (valid : state.Valid setting) (fair : setting.IsFair)
    (found : state.class? name = some cls) (chosen : state.proxyTarget? name proxy = some target) :
    TargetsMostSpecific state.class? name proxy target := by
  have choice : ∀ record ∈ state.superChain name ++ state.ancestorRecords name,
      state.ChoosesFirst record proxy := by
    intro record mem
    have linked : state.class? record.name = some record :=
      ((List.mem_append.1 mem).elim (mem_superChain valid.follows fair.rooted found)
        (mem_ancestorRecords valid.follows found)).1
    exact mostSpecific_chooses valid fair linked proxy
  obtain ⟨before, record, rest, split, chosen, lacks⟩ := List.findSome?_eq_some_iff.1 chosen
  have unrefined : state.IsUnrefined record proxy target :=
    (((choice record (by simp [split])).chosen_iff target).1 chosen).1
  refine ⟨record, ⟨⟨cls, state.superChain name, before, rest, found,
    (climbs_superChain valid.follows fair.rooted name).superChain, ?_, ?_⟩, target, unrefined.1⟩,
    unrefined.1, ?_⟩
  · rw [← split, ancestorRecords, found]
  · intro earlier mem method has
    have some_ := (choice earlier (by simp [split, mem])).isSome_iff.2 ⟨method, has⟩
    rw [lacks earlier mem] at some_
    cases some_
  · rintro other has ⟨left, right, result, result', specific⟩
    exact unrefined.2 other has (refinesResult_iff.2 ⟨left, right, result, result', specific⟩)

/-- A step that enters a proxy does so in a class that does not have it, and with the target that is
chosen then. -/
theorem Move.proxyTarget?_eq (valid : state.Valid setting)
    (move : Move setting state next) {id : MethodId}
    (new : state.forwarder? id ≠ some (.proxy target))
    (made : next.forwarder? id = some (.proxy target)) :
    ∃ cls, state.class? id.owner = some cls ∧ cls.method? id.key = none ∧
      state.proxyTarget? id.owner id.name = some target := by
  cases move with
  | take => exact absurd made new
  | change change =>
    obtain ⟨record, entry, found, entered, added⟩ := State.forwarder?_eq_some.1 made
    have known : ∀ {cls entry}, state.class? id.owner = some cls → cls.method? id.key = some entry →
        entry.forwarder = some (.proxy target) → False :=
      fun before has added => new (State.forwarder?_eq_some.2 ⟨_, _, before, has, added⟩)
    rcases change.class_cases found with
      before | ⟨_, fresh_eq⟩ | ⟨cls, tasks, errors, at_, update, rfl⟩
    · exact (known before entered added).elim
    · rw [← fresh_eq] at entered
      rw [(ClassRecord.declared_shape entered).2.2] at added
      cases added
    · cases update with
      | use | creator | instances | inhabit | note => exact (known at_ entered added).elim
      | @call cause key _ _ enters =>
        rw [ClassRecord.method?_withCall] at entered
        split at entered
        · rename_i key_eq
          cases entered
          cases enters with
          | found has =>
            rw [key_eq] at has
            exact (known at_ has added).elim
          | missing | bridge => cases added
          | @proxy proxy _ _ _ _ lacks chosen =>
            cases added
            rw [valid.follows.name_eq at_] at chosen
            obtain rfl : proxy = id.name := congrArg MethodKey.name key_eq
            exact ⟨cls, at_, key_eq ▸ lacks, chosen⟩
        · exact (known at_ entered added).elim

/-- A run over the classes of a loader comes to the first state, enters the proxy with the target in
its next step, and goes on to the last state. -/
structure Loader.EntersProxy (loader : Loader) (allow : Bool) (requirement : Requirement)
    (id : MethodId) (target : MethodName) (early last : State) : Prop where
  before : Moves (loader.runs allow requirement) { allowForwarders := allow } early
  lacks : early.forwarder? id = none
  enters : ∃ next, Move (loader.runs allow requirement) early next ∧
    next.forwarder? id = some (.proxy target) ∧ Moves (loader.runs allow requirement) next last

/-- Every proxy has been entered in some step. -/
theorem Loader.exists_entersProxy (rooted : loader.knows.IsRooted)
    (reached : Moves (loader.runs allow requirement) { allowForwarders := allow } state)
    {id : MethodId} (has : state.forwarder? id = some (.proxy target)) :
    ∃ early, loader.EntersProxy allow requirement id target early state := by
  have fair : (loader.runs allow requirement).IsFair := Loader.isFair_settingFor rooted
  induction reached with
  | refl =>
    obtain ⟨cls, _, found, _⟩ := State.forwarder?_eq_some.1 has
    rw [State.class?_blank] at found
    cases found
  | @tail middle _ before move ih =>
    by_cases earlier : middle.forwarder? id = some (.proxy target)
    · obtain ⟨early, before, lacks, next, enters, has, onwards⟩ := ih earlier
      exact ⟨early, before, lacks, next, enters, has, onwards.tail move⟩
    · have valid := Moves.valid fair before (State.valid_empty _)
      obtain ⟨cls, found, lacks, _⟩ := move.proxyTarget?_eq valid earlier has
      refine ⟨middle, before, ?_, _, move, has, .refl⟩
      rw [State.forwarder?, State.method?, found, Option.bind_some, lacks, Option.bind_none]

namespace Loader.EntersProxy

variable {id : MethodId} {last : State}

/-- The target is looked up in a class that stays the same, and has been the most specific match in
it by the classes that were linked then. -/
theorem exists_firstMatch (enters : loader.EntersProxy allow requirement id target early last)
    (rooted : loader.knows.IsRooted) :
    early.Grows last ∧ ∃ record, FirstMatch last.class? id.owner id.name record ∧
      record.Matches id.name target ∧ ∀ other, record.Matches id.name other →
        ¬ MoreSpecificResult early.class? other target := by
  have fair : (loader.runs allow requirement).IsFair := Loader.isFair_settingFor rooted
  obtain ⟨before, lacks, next, move, has, onwards⟩ := enters
  have valid := Moves.valid fair before (State.valid_empty _)
  have grows : early.Grows last := move.grows.trans (Moves.grows onwards)
  have valid' := Moves.valid fair ((before.tail move).trans onwards) (State.valid_empty _)
  obtain ⟨cls, found, _, chosen⟩ := move.proxyTarget?_eq valid (by simp [lacks]) has
  obtain ⟨record, first, matches_, unrefined⟩ := valid.targetsMostSpecific fair found chosen
  obtain ⟨record', becomes, first'⟩ := first.grow fair valid valid' grows
  exact ⟨grows, record', first', (becomes.matches_iff valid valid').2 matches_,
    fun other has => unrefined other ((becomes.matches_iff valid valid').1 has)⟩

/-- So in the end it is the most specific match if and only if none of the matches whose result
class had not been linked then has turned out to be more specific. -/
theorem targetsMostSpecific_iff (enters : loader.EntersProxy allow requirement id target early last)
    (rooted : loader.knows.IsRooted) :
    TargetsMostSpecific last.class? id.owner id.name target ↔
      ∀ record other lower, FirstMatch last.class? id.owner id.name record →
        record.Matches id.name other → other.resultClass? = some lower →
          early.class? lower = none → ¬ MoreSpecificResult last.class? other target := by
  obtain ⟨grows, record, first, matches_, unrefined⟩ := enters.exists_firstMatch rooted
  constructor
  · rintro ⟨record', first', _, unrefined'⟩ found other lower at_ has _ _
    obtain rfl := first'.unique at_
    exact unrefined' other has
  · intro late
    refine ⟨record, first, matches_, fun other has specific => ?_⟩
    by_cases unlinked : ∃ lower, other.resultClass? = some lower ∧ early.class? lower = none
    · obtain ⟨lower, result, unlinked⟩ := unlinked
      exact late record other lower first has result unlinked specific
    · exact unrefined other has (specific.of_later grows fun lower result none =>
        unlinked ⟨lower, result, none⟩)

end Loader.EntersProxy

/-- The target of every proxy in a result is declared in the first class with a match. If it is the
most specific match there depends on what the run had linked when it entered the proxy: none of the
matches whose result class had not been linked by then may turn out to be more specific. -/
theorem analyze_targetsMostSpecific_iff {analysis : Analysis} {after : Loader}
    (ends : analyze allow requirement loader = (.ok analysis, after)) {id : MethodId}
    {entry : MethodRecord} (found : analysis.method? id = some entry)
    (proxied : entry.forwarder = some (.proxy target)) :
    (∃ record, FirstMatch analysis.class? id.owner id.name record ∧
      record.Matches id.name target) ∧
    ∃ last, loader.Reaches allow requirement last ∧ analysis = last.result ∧
      (∃ early, loader.EntersProxy allow requirement id target early last) ∧
      ∀ early, loader.EntersProxy allow requirement id target early last →
        (TargetsMostSpecific analysis.class? id.owner id.name target ↔
          ∀ record other lower, FirstMatch analysis.class? id.owner id.name record →
            record.Matches id.name other → other.resultClass? = some lower →
              early.class? lower = none → ¬ MoreSpecificResult analysis.class? other target) := by
  obtain ⟨cls, owned, has⟩ := Option.bind_eq_some_iff.1 found
  obtain ⟨last, reaches, at_, rfl⟩ := exists_reached_of_analyze ends owned
  have same : last.result.class? = last.class? := funext last.class?_result
  have added : last.forwarder? id = some (.proxy target) :=
    State.forwarder?_eq_some.2 ⟨cls, entry, at_, has, proxied⟩
  obtain ⟨early, enters⟩ := Loader.exists_entersProxy reaches.rooted
    (Turns.moves reaches.isFair reaches.turns) added
  obtain ⟨_, record, first, matches_, _⟩ := enters.exists_firstMatch reaches.rooted
  rw [same]
  exact ⟨⟨record, first, matches_⟩, last, reaches, rfl, ⟨early, enters⟩,
    fun _ enters => enters.targetsMostSpecific_iff reaches.rooted⟩

/-- The proxy of the overloads is called, and the lower result type is used. -/
def callProxy : Requirement :=
  .every [.instances "tests" ⟨"A"⟩ .defaultConstructor, .typeData "tests" ⟨"R2"⟩,
    .call "tests" ⟨"A"⟩ ⟨"foo__"⟩]

/-- The proxy of the overloads. -/
def fooProxy : MethodId := ⟨⟨"A"⟩, .publicInstance, ⟨"foo__"⟩⟩

/-- The class with the overloads is linked first, since the lower result type waits for the upper
one to be loaded. So the proxy gets the first of the overloads, and then the result types are linked
and the other one is more specific. -/
theorem exists_callProxy :
    ∃ analysis after entry, analyze true callProxy (Loader.ofDecls overloads) =
        (.ok analysis, after) ∧ analysis.method? fooProxy = some entry ∧
      entry.forwarder = some (.proxy ⟨"foo__R1"⟩) ∧
      ¬ TargetsMostSpecific analysis.class? ⟨"A"⟩ ⟨"foo__"⟩ ⟨"foo__R1"⟩ := by
  have told : (analyze true callProxy (Loader.ofDecls overloads)).1.toOption.map (fun analysis =>
      ((analysis.class? ⟨"A"⟩).map fun cls => decide (cls.Matches ⟨"foo__"⟩ ⟨"foo__R2"⟩),
        (analysis.method? fooProxy).map MethodRecord.forwarder,
        (analysis.class? ⟨"R2"⟩).map fun cls => decide (⟨"R1"⟩ ∈ cls.ancestors))) =
      some (some true, some (some (.proxy ⟨"foo__R1"⟩)), some true) := by decide +kernel
  obtain ⟨analysis, after, ends, told⟩ := exists_of_toOption_map told
  simp only [Prod.mk.injEq] at told
  obtain ⟨declares, proxied, linked⟩ := told
  obtain ⟨cls, found, matches_⟩ := Option.map_eq_some_iff.1 declares
  obtain ⟨entry, entered, proxied⟩ := Option.map_eq_some_iff.1 proxied
  obtain ⟨lower, found', above⟩ := Option.map_eq_some_iff.1 linked
  have result : MethodName.encodedResult? ⟨"foo__R2"⟩ = some (.named ⟨"R2"⟩) := by decide +kernel
  have result' : MethodName.encodedResult? ⟨"foo__R1"⟩ = some (.named ⟨"R1"⟩) := by decide +kernel
  have below : IsStrictlyBelow analysis.class? ⟨"R2"⟩ ⟨"R1"⟩ :=
    ⟨by decide, lower, found', of_decide_eq_true above⟩
  refine ⟨analysis, after, entry, ends, entered, proxied, ?_⟩
  rintro ⟨record, first, _, unrefined⟩
  have has : cls.Matches ⟨"foo__"⟩ ⟨"foo__R2"⟩ := of_decide_eq_true matches_
  obtain rfl := first.eq_of_matches found has
  exact unrefined _ has ⟨_, _, result, result', .below rfl rfl rfl below⟩

/-- So a match with a class for its result has been overlooked that was not linked then. -/
theorem analyze_targetsMostSpecific_overloads :
    ∃ analysis after early last record other lower,
      analyze true callProxy (Loader.ofDecls overloads) = (.ok analysis, after) ∧
      analysis = last.result ∧
      (Loader.ofDecls overloads).EntersProxy true callProxy fooProxy ⟨"foo__R1"⟩ early last ∧
      FirstMatch analysis.class? ⟨"A"⟩ ⟨"foo__"⟩ record ∧ record.Matches ⟨"foo__"⟩ ⟨"foo__R1"⟩ ∧
      record.Matches ⟨"foo__"⟩ other ∧ other.resultClass? = some lower ∧
      early.class? lower = none ∧ MoreSpecificResult analysis.class? other ⟨"foo__R1"⟩ := by
  obtain ⟨analysis, after, entry, ends, found, proxied, overlooked⟩ := exists_callProxy
  obtain ⟨⟨record, first, matches_⟩, last, _, same, ⟨early, enters⟩, iff⟩ :=
    analyze_targetsMostSpecific_iff ends found proxied
  by_contra none
  refine overlooked ((iff early enters).2
    fun record' other lower at_ has result unlinked specific => none ?_)
  obtain rfl := first.unique at_
  exact ⟨analysis, after, early, last, record, other, lower, ends, same, enters, first, matches_,
    has, result, unlinked, specific⟩

/-- A result with a proxy whose target is not the most specific match. -/
theorem not_targetsMostSpecific_overloads :
    ¬ ∀ (allow : Bool) (requirement : Requirement) (loader : Loader) (analysis : Analysis)
      (after : Loader) (id : MethodId) (entry : MethodRecord) (target : MethodName),
      analyze allow requirement loader = (.ok analysis, after) →
        analysis.method? id = some entry → entry.forwarder = some (.proxy target) →
          TargetsMostSpecific analysis.class? id.owner id.name target := by
  intro claimed
  obtain ⟨analysis, after, entry, ends, found, proxied, overlooked⟩ := exists_callProxy
  exact overlooked (claimed _ _ _ _ _ _ _ _ ends found proxied)

end ClassLinker
