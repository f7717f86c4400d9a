import ClassLinker.Proofs.Hiding
import Mathlib.Data.Fintype.EquivFin
import Mathlib.Data.Fintype.Sets
import Mathlib.Order.WellFounded

/-!
# More specific result types

Of several methods that a proxy can call, the one with the most specific result type is taken. What
is more specific depends on the classes that are linked, and the hierarchy may be linked in part
only; but in every state that a run can come to it is a strict order
(`isStrictOrder_refinesResult`), since the ancestors of a linked class are linked and no two classes
are above each other, and since nothing is above the root class, the only one that arrays are below.

* `MoreSpecific classes left right`: what is more specific, by the classes that are known;
* `ClassRecord.Matches`: the methods of a class that a proxy can call;
* `State.IsUnrefined`: such a method whose result type that of no other one refines;
* `State.exists_isUnrefined`: there is one if the class has any match, so that a first match is
  never taken for want of one;
* `State.ChoosesFirst`: what the choice then amounts to (`State.mostSpecific_chooses`).
-/

namespace ClassLinker

variable {setting : Setting} {state : State} {world : Universe} {classes : Lookup}
variable {name lower middle upper : ClassName} {cls : ClassRecord} {proxy method : MethodName}
variable {left right between : Ty}

/-! ### More specific types -/

/-- The class lies strictly below the other one. -/
def IsStrictlyBelow (classes : Lookup) (lower upper : ClassName) : Prop :=
  lower ≠ upper ∧ ∃ cls, classes lower = some cls ∧ upper ∈ cls.ancestors

/-- There are two ways of being more specific, which do not overlap: the class that an array of some
depth is of lies below that of another one of this depth, or an array stands against the root
class. -/
inductive MoreSpecific (classes : Lookup) : Ty → Ty → Prop
  | below {left right : Ty} {lower upper : ClassName} (left_base : left.base = .named lower)
      (right_base : right.base = .named upper) (depth : left.depth = right.depth)
      (below : IsStrictlyBelow classes lower upper) : MoreSpecific classes left right
  | array {left : Ty} (deep : 0 < left.depth) : MoreSpecific classes left .object

theorem Ty.eq_object_iff {type : Ty} :
    type = .object ↔ type.base = .named .object ∧ type.depth = 0 := by
  cases type <;> simp [Ty.object, Ty.base, Ty.depth]

theorem moreSpecific_iff : MoreSpecific classes left right ↔
    (∃ lower upper, left.base = .named lower ∧ right.base = .named upper ∧
      left.depth = right.depth ∧ IsStrictlyBelow classes lower upper) ∨
    (0 < left.depth ∧ right = .object) := by
  constructor
  · rintro (⟨left_base, right_base, depth, below⟩ | deep)
    · exact .inl ⟨_, _, left_base, right_base, depth, below⟩
    · exact .inr ⟨deep, rfl⟩
  · rintro (⟨_, _, left_base, right_base, depth, below⟩ | ⟨deep, rfl⟩)
    · exact .below left_base right_base depth below
    · exact .array deep

/-- Nothing is above the root class. -/
theorem not_isStrictlyBelow_object (follows : Follows world classes) (rooted : world.IsRooted) :
    ¬ IsStrictlyBelow classes .object upper := by
  rintro ⟨ne, root, found, above⟩
  have same : root.ancestors = [.object] := ((follows.links found).object_eq rooted).2.2.1
  rw [same, List.mem_singleton] at above
  exact ne above.symm

theorem IsStrictlyBelow.trans (follows : Follows world classes) (rooted : world.IsRooted)
    (first : IsStrictlyBelow classes lower middle) (second : IsStrictlyBelow classes middle upper) :
    IsStrictlyBelow classes lower upper := by
  obtain ⟨ne, cls, found, between⟩ := first
  obtain ⟨_, record, above, top⟩ := second
  refine ⟨?_, cls, found, follows.ancestors_subset rooted found between above top⟩
  rintro rfl
  exact ne ((follows.links above).eq_of_mem rooted (follows.links found) top between)

namespace MoreSpecific

theorem irrefl (type : Ty) : ¬ MoreSpecific classes type type := by
  intro refines
  rcases moreSpecific_iff.1 refines with ⟨lower, upper, left, right, _, below⟩ | ⟨deep, rfl⟩
  · rw [left, Ty.named.injEq] at right
    exact below.1 right
  · exact absurd deep (by decide)

/-- An array that stands against the root class ends every chain, for nothing is above that one. -/
theorem trans (follows : Follows world classes) (rooted : world.IsRooted)
    (first : MoreSpecific classes left between) (second : MoreSpecific classes between right) :
    MoreSpecific classes left right := by
  cases second with
  | below base right_base depth above =>
    cases first with
    | below left_base same depth' below =>
      rw [base, Ty.named.injEq] at same
      subst same
      exact .below left_base right_base (depth'.trans depth) (below.trans follows rooted above)
    | array =>
      obtain rfl := Ty.named.inj base
      exact absurd above (not_isStrictlyBelow_object follows rooted)
  | array deep =>
    cases first with
    | below _ _ depth => exact .array (depth ▸ deep)
    | array deep' => exact .array deep'

end MoreSpecific

namespace State

theorem isStrictlyBelow_iff :
    state.isStrictlyBelow lower upper = true ↔ IsStrictlyBelow state.class? lower upper := by
  simp [isStrictlyBelow, IsStrictlyBelow, ClassRecord.isBelow, Option.any_eq_true]

theorem refines_iff : state.refines left right = true ↔ MoreSpecific state.class? left right := by
  simp only [moreSpecific_iff, ← isStrictlyBelow_iff, Ty.eq_object_iff]
  cases right_base : right.base with
  | named upper =>
    have array : (right.depth = 0 ∧ 0 < left.depth) ∧ upper = .object ↔
        0 < left.depth ∧ upper = .object ∧ right.depth = 0 := by tauto
    cases left_base : left.base with
    | named lower =>
      by_cases same : left.depth = right.depth
      · have flat : ¬ (0 < right.depth ∧ upper = .object ∧ right.depth = 0) := by omega
        simp [refines, left_base, right_base, same, flat]
      · simpa [refines, left_base, right_base, same] using array
    | void | primitive | array => simpa [refines, left_base, right_base] using array
  | void | primitive | array => simp [refines, right_base]

theorem refinesResult_iff {left right : Option Ty} : state.refinesResult left right = true ↔
    ∃ lower upper, left = some lower ∧ right = some upper ∧
      MoreSpecific state.class? lower upper := by
  cases left <;> cases right <;> simp [refinesResult, refines_iff]

/-- Being more specific is a strict order on result types. -/
theorem isStrictOrder_refinesResult (follows : Follows world state.class?)
    (rooted : world.IsRooted) :
    IsStrictOrder (Option Ty) fun left right => state.refinesResult left right = true where
  irrefl result refines := by
    obtain ⟨lower, upper, left, right, refines⟩ := refinesResult_iff.1 refines
    obtain rfl := Option.some.inj (left.symm.trans right)
    exact MoreSpecific.irrefl lower refines
  trans _ _ _ first second := by
    obtain ⟨lower, middle, left, same, first⟩ := refinesResult_iff.1 first
    obtain ⟨middle', upper, same', right, second⟩ := refinesResult_iff.1 second
    obtain rfl := Option.some.inj (same.symm.trans same')
    exact refinesResult_iff.2 ⟨lower, upper, left, right, first.trans follows rooted second⟩

end State

/-! ### What a proxy can call in a class -/

/-- The class has code of its own for a public method, which has not been added, and by a name that
continues that of the proxy. -/
def ClassRecord.Matches (cls : ClassRecord) (proxy method : MethodName) : Prop :=
  ∃ entry, cls.method? ⟨.publicInstance, method⟩ = some entry ∧ entry.isPresent = true ∧
    entry.isAbstract = false ∧ entry.forwarder = none ∧ method.matchesProxy proxy = true

instance (cls : ClassRecord) (proxy method : MethodName) : Decidable (cls.Matches proxy method) :=
  decidable_of_iff ((cls.method? ⟨.publicInstance, method⟩).any fun entry =>
      entry.isPresent && !entry.isAbstract && entry.forwarder = none && method.matchesProxy proxy)
    (by simp [ClassRecord.Matches, Option.any_eq_true, and_assoc])

namespace State

theorem mem_proxyMatches_iff (valid : state.Valid setting) (found : state.class? name = some cls) :
    method ∈ proxyMatches cls proxy ↔ cls.Matches proxy method := by
  constructor
  · intro mem
    obtain ⟨key, entry, has, key_eq, concrete, own, continues⟩ := exists_of_mem_proxyMatches mem
    obtain rfl : key = ⟨.publicInstance, method⟩ := by
      rw [← key_eq, ((valid.classes found).entries has).id_eq]
      rfl
    obtain ⟨present, isAbstract⟩ := Bool.and_eq_true_iff.1 concrete
    exact ⟨entry, has, present, by simpa using isAbstract, own, continues⟩
  · rintro ⟨entry, has, present, isAbstract, own, continues⟩
    have id_eq : entry.id = ⟨cls.name, .publicInstance, method⟩ :=
      ((valid.classes found).entries has).id_eq
    refine List.mem_map.2 ⟨entry, List.mem_filter.2 ⟨?_, ?_⟩, by rw [id_eq]⟩
    · exact List.mem_map.2
        ⟨(_, entry), Std.ExtTreeMap.mem_toList_iff_getElem?_eq_some.2 has, rfl⟩
    · simp [id_eq, MethodRecord.isConcrete, present, isAbstract, own, continues]

/-- Matches are listed in name order, as all methods of the namespace are. -/
theorem pairwise_proxyMatches (valid : state.Valid setting)
    (found : state.class? name = some cls) :
    (proxyMatches cls proxy).Pairwise fun first second => compare first second = .lt := by
  rw [proxyMatches, ClassRecord.methodList, List.pairwise_map, List.pairwise_filter,
    List.pairwise_map]
  refine Std.ExtTreeMap.ordered_keys_toList.imp_of_mem ?_
  intro (key, entry) (key', entry') mem mem' less shape shape'
  have id_eq : entry.id = ⟨cls.name, key.space, key.name⟩ := ((valid.classes found).entries
    (Std.ExtTreeMap.mem_toList_iff_getElem?_eq_some.1 mem)).id_eq
  have id_eq' : entry'.id = ⟨cls.name, key'.space, key'.name⟩ := ((valid.classes found).entries
    (Std.ExtTreeMap.mem_toList_iff_getElem?_eq_some.1 mem')).id_eq
  simp only [Bool.and_eq_true, decide_eq_true_eq, id_eq, id_eq'] at shape shape' ⊢
  have space : key.space = key'.space := shape.1.1.1.trans shape'.1.1.1.symm
  have less : (compare key.space key'.space).then (compare key.name key'.name) = .lt := less
  rw [space, Std.compare_self] at less
  exact less

/-- A match whose result type that of no other match refines. -/
def IsUnrefined (state : State) (cls : ClassRecord) (proxy method : MethodName) : Prop :=
  cls.Matches proxy method ∧ ∀ other, cls.Matches proxy other →
    ¬ state.refinesResult other.encodedResult? method.encodedResult? = true

/-- Of finitely many methods there is always one that none of the others refines. -/
theorem exists_isUnrefined (follows : Follows world state.class?) (rooted : world.IsRooted)
    {candidates : List MethodName} (nonempty : candidates ≠ []) :
    ∃ method ∈ candidates, ∀ other ∈ candidates,
      ¬ state.refinesResult other.encodedResult? method.encodedResult? = true := by
  have order := isStrictOrder_refinesResult follows rooted
  let refining (left right : {method // method ∈ candidates}) : Prop :=
    state.refinesResult left.1.encodedResult? right.1.encodedResult? = true
  have : IsTrans _ refining := ⟨fun _ _ _ => order.trans _ _ _⟩
  have : Std.Irrefl refining := ⟨fun _ => order.irrefl _⟩
  obtain ⟨first, mem⟩ := List.exists_mem_of_ne_nil candidates nonempty
  obtain ⟨least, _, none_below⟩ := (Finite.wellFounded_of_trans_of_irrefl refining).has_min
    Set.univ ⟨⟨first, mem⟩, trivial⟩
  exact ⟨least, least.2, fun other mem => none_below ⟨other, mem⟩ trivial⟩

/-- The choice among what a proxy can call in a class. -/
structure ChoosesFirst (state : State) (cls : ClassRecord) (proxy : MethodName) : Prop where
  /-- It comes to something if there is a match at all. -/
  isSome_iff : (state.mostSpecific? (proxyMatches cls proxy)).isSome = true ↔
    ∃ method, cls.Matches proxy method
  /-- It is the first in name order of those that no other match refines. -/
  chosen_iff : ∀ method, state.mostSpecific? (proxyMatches cls proxy) = some method ↔
    state.IsUnrefined cls proxy method ∧
      ∀ other, state.IsUnrefined cls proxy other → (compare method other).isLE = true
  /-- One of these is found wherever there is a match, so the first match never stands in for
  them. -/
  finds : (∃ method, cls.Matches proxy method) →
    ((proxyMatches cls proxy).find? fun candidate => !(proxyMatches cls proxy).any fun other =>
      state.refinesResult other.encodedResult? candidate.encodedResult?).isSome = true

end State

/-- What is found first in an ordered list is the least of what could be found. -/
theorem find?_eq_some_iff_least {α : Type} [Ord α] [Std.TransOrd α] [Std.LawfulEqOrd α]
    {candidates : List α} {test : α → Bool}
    (ordered : candidates.Pairwise fun first second => compare first second = .lt) {found : α} :
    candidates.find? test = some found ↔ (found ∈ candidates ∧ test found = true) ∧
      ∀ other, other ∈ candidates ∧ test other = true → (compare found other).isLE = true := by
  induction ordered with
  | nil => simp
  | @cons first rest before _ ih =>
    rw [List.find?_cons]
    cases passes : test first with
    | true =>
      constructor
      · rintro ⟨⟩
        refine ⟨⟨List.mem_cons_self, passes⟩, fun other ⟨mem, _⟩ => ?_⟩
        rcases List.mem_cons.1 mem with rfl | mem
        · rw [Std.compare_self]; rfl
        · rw [before other mem]; rfl
      · rintro ⟨⟨mem, _⟩, least⟩
        rcases List.mem_cons.1 mem with rfl | mem
        · rfl
        · have less := least first ⟨List.mem_cons_self, passes⟩
          rw [Std.OrientedOrd.eq_swap, before found mem] at less
          cases less
    | false =>
      have same : ∀ other, other ∈ first :: rest ∧ test other = true ↔
          other ∈ rest ∧ test other = true := by
        intro other
        rw [List.mem_cons]
        constructor
        · rintro ⟨rfl | mem, passes'⟩
          · rw [passes] at passes'; cases passes'
          · exact ⟨mem, passes'⟩
        · exact fun ⟨mem, passes'⟩ => ⟨.inr mem, passes'⟩
      simpa only [same] using ih

namespace State

theorem mostSpecific_chooses (valid : state.Valid setting) (fair : setting.IsFair)
    (found : state.class? name = some cls) (proxy : MethodName) : state.ChoosesFirst cls proxy := by
  let candidates := proxyMatches cls proxy
  let unrefined (candidate : MethodName) : Bool := !candidates.any fun other =>
    state.refinesResult other.encodedResult? candidate.encodedResult?
  have matches_iff : ∀ {method}, method ∈ candidates ↔ cls.Matches proxy method :=
    mem_proxyMatches_iff valid found
  have unrefined_iff : ∀ method, method ∈ candidates ∧ unrefined method = true ↔
      state.IsUnrefined cls proxy method := by
    intro method
    simp [unrefined, IsUnrefined, matches_iff]
  have finds : (∃ method, cls.Matches proxy method) →
      (candidates.find? unrefined).isSome = true := by
    rintro ⟨method, matches_⟩
    obtain ⟨least, mem, none_refines⟩ := exists_isUnrefined valid.follows fair.rooted
      (List.ne_nil_of_mem (matches_iff.2 matches_))
    refine List.find?_isSome.2 ⟨least, mem, ?_⟩
    simpa [unrefined] using none_refines
  have chosen_eq : state.mostSpecific? candidates = candidates.find? unrefined := by
    change (candidates.find? unrefined <|> candidates.head?) = _
    cases search : candidates.find? unrefined with
    | some => rfl
    | none =>
      have empty : candidates = [] := by
        refine List.eq_nil_iff_forall_not_mem.2 fun method mem => ?_
        have some := finds ⟨method, matches_iff.1 mem⟩
        rw [search] at some
        cases some
      rw [empty]
      rfl
  refine ⟨⟨fun some => ?_, fun any => chosen_eq ▸ finds any⟩, fun method => ?_, finds⟩
  · obtain ⟨method, chosen⟩ := Option.isSome_iff_exists.1 some
    exact ⟨method, matches_iff.1 (mem_of_mostSpecific? chosen)⟩
  · rw [chosen_eq, find?_eq_some_iff_least (pairwise_proxyMatches valid found)]
    simp only [candidates, unrefined_iff]

end State

/-- In every state that a run can come to, in whatever order its tasks are done, being more specific
is a strict order on result types, and in every linked class the choice for a proxy takes the first
of the methods that no other match refines. -/
theorem resultTypes_ordered {loader : Loader} {allowForwarders : Bool} {requirement : Requirement}
    (rooted : loader.knows.IsRooted)
    (reached : Moves (loader.runs allowForwarders requirement) { allowForwarders } state) :
    IsStrictOrder (Option Ty) (fun left right => state.refinesResult left right = true) ∧
      (∀ left right, state.refinesResult left right = true →
        ¬ state.refinesResult right left = true) ∧
      ∀ name cls proxy, state.class? name = some cls → state.ChoosesFirst cls proxy := by
  have fair : (loader.runs allowForwarders requirement).IsFair := Loader.isFair_settingFor rooted
  have valid := Moves.valid fair reached (State.valid_empty _)
  have order := State.isStrictOrder_refinesResult valid.follows fair.rooted
  exact ⟨order, fun left right below above => order.irrefl left (order.trans _ _ _ below above),
    fun _ _ proxy found => State.mostSpecific_chooses valid fair found proxy⟩

/-- A class with two methods that differ in their result types only, a class and one below it. -/
def overloads : List ClassDecl :=
  [.ofMethods .object .plain [] [],
    .ofMethods ⟨"R1"⟩ .plain [.object] [],
    .ofMethods ⟨"R2"⟩ .plain [⟨"R1"⟩] [],
    .ofMethods ⟨"A"⟩ .plain [.object]
      [.plain .constructor .defaultConstructor (some .skip),
        .plain .publicInstance ⟨"foo__R1"⟩ (some .skip),
        .plain .publicInstance ⟨"foo__R2"⟩ (some .skip)]]

/-- With both result types linked, the method with the lower one is chosen. -/
theorem resultTypes_ordered_overloads :
    let setting := (Loader.ofDecls overloads).runs true
      (.every [.typeData "tests" ⟨"R2"⟩, .instances "tests" ⟨"A"⟩ .defaultConstructor])
    ∃ state cls, Moves setting { allowForwarders := true } state ∧
      state.class? ⟨"A"⟩ = some cls ∧ state.IsUnrefined cls ⟨"foo__"⟩ ⟨"foo__R2"⟩ := by
  let requirement : Requirement :=
    .every [.typeData "tests" ⟨"R2"⟩, .instances "tests" ⟨"A"⟩ .defaultConstructor]
  have known : (Loader.ofDecls overloads).knows .object = some plainRoot := by decide +kernel
  have told : ((State.start true plainRoot requirement
      (Loader.ofDecls overloads).entryPoints).settle 40 (Loader.ofDecls overloads)).1.toOption.map
        (fun state => (state.class? ⟨"A"⟩).map fun cls =>
          state.mostSpecific? (State.proxyMatches cls ⟨"foo__"⟩)) =
      some (some (some ⟨"foo__R2"⟩)) := by decide +kernel
  obtain ⟨state, after, ends, told⟩ := exists_of_toOption_map told
  have reached := State.reached_of_settle known rfl ends
  obtain ⟨cls, found, chosen⟩ := Option.map_eq_some_iff.1 told
  have chooses := (resultTypes_ordered ⟨_, known, rfl⟩ reached).2.2 ⟨"A"⟩ cls ⟨"foo__"⟩ found
  exact ⟨state, cls, reached, found, ((chooses.chosen_iff _).1 chosen).1⟩

end ClassLinker
