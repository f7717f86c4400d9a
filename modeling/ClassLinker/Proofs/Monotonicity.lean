import ClassLinker.Proofs.Dispatching
import ClassLinker.Proofs.Exactness
import ClassLinker.Proofs.Hiding
import ClassLinker.Proofs.Keeping
import ClassLinker.Proofs.Widening

/-!
# More requirements

Asking for more should make no method unreachable and no class superfluous. This holds of all that
does not depend on bridges and proxies, but these are added where calls happen to need them. If one
more call adds a bridge to a class, the classes below find it there and get none of their own, and
the default methods that theirs would call are lost.

* `Analysis.IsWithin`: everything that is reachable or needed stays so;
* `isWithin_iff_relayed`: this is so exactly if it holds of what the first analysis relays.
-/

namespace ClassLinker

variable {setting : Setting} {more : Requirement} {state upper : State}
variable {name : ClassName} {cls : ClassRecord}

/-! ### Requirements that are added -/

namespace Requirement

variable {isOptional : Bool} {first second : Requirement}

theorem tasksOfAll_parts (requirement : Requirement) :
    tasksOfAll isOptional requirement.parts = requirement.tasks isOptional := by
  cases requirement with
  | every => rfl
  | _ => exact List.append_nil _

theorem allEmpty_parts (requirement : Requirement) :
    allEmpty requirement.parts = requirement.isEmpty := by
  cases requirement with
  | every => rfl
  | _ => exact Bool.and_true _

theorem add_cases (first second : Requirement) : first = nothing ∧ first + second = second ∨
    first + second = first ∧ second = nothing ∨
      first + second = every (first.parts ++ second.parts) := by
  cases first with
  | nothing => exact .inl ⟨rfl, nothing_add second⟩
  | _ =>
    cases second with
    | nothing => exact .inr (.inl ⟨rfl, rfl⟩)
    | _ => exact .inr (.inr rfl)

/-- A sum asks for what its parts ask for. -/
theorem tasks_add : (first + second).tasks isOptional =
    first.tasks isOptional ++ second.tasks isOptional := by
  rcases add_cases first second with ⟨rfl, same⟩ | ⟨same, rfl⟩ | same
  · rw [same]; rfl
  · rw [same]; exact (List.append_nil _).symm
  · rw [same, ← tasksOfAll_parts first, ← tasksOfAll_parts second]
    simp only [tasks, tasksOfAll_eq_flatMap, List.flatMap_append]

theorem isEmpty_of_add (empty : (first + second).isEmpty = true) : first.isEmpty = true := by
  rcases add_cases first second with ⟨rfl, _⟩ | ⟨same, rfl⟩ | same
  · rfl
  · rwa [same] at empty
  · rw [same] at empty
    have empty : allEmpty (first.parts ++ second.parts) = true := empty
    rw [allEmpty_eq_all, List.all_append, Bool.and_eq_true] at empty
    rw [← allEmpty_parts, allEmpty_eq_all]
    exact empty.1

end Requirement

/-! ### Analyses -/

/-- A class is needed if it has instances, is used, or has a method that is reachable. -/
theorem ClassRecord.isNeeded_iff : cls.isNeeded = true ↔ cls.hasInstances = true ∨
    (∃ use, use ≠ .instances ∧ cls.uses.contains use = true) ∨
      ∃ key entry, cls.method? key = some entry ∧ entry.isReached = true := by
  have uses : (∃ use, use ≠ .instances ∧ cls.uses.contains use = true) ↔
      cls.uses.module = true ∨ cls.uses.tests = true ∨ cls.uses.typeData = true ∨
        cls.uses.staticFields = true ∨ cls.uses.privateFields = true := by
    constructor
    · rintro ⟨use, notInstances, h⟩
      cases use with
      | instances => exact absurd rfl notInstances
      | module => exact .inl h
      | tests => exact .inr (.inl h)
      | typeData => exact .inr (.inr (.inl h))
      | staticFields => exact .inr (.inr (.inr (.inl h)))
      | privateFields => exact .inr (.inr (.inr (.inr h)))
    · rintro (h | h | h | h | h)
      · exact ⟨.module, by simp, h⟩
      · exact ⟨.tests, by simp, h⟩
      · exact ⟨.typeData, by simp, h⟩
      · exact ⟨.staticFields, by simp, h⟩
      · exact ⟨.privateFields, by simp, h⟩
  have methods : (∃ key entry, cls.method? key = some entry ∧ entry.isReached = true) ↔
      cls.reached ≠ [] := by
    constructor
    · rintro ⟨key, entry, has, reached⟩
      exact List.ne_nil_of_mem (ClassRecord.mem_reached.2 ⟨⟨key, has⟩, reached⟩)
    · intro some_reached
      obtain ⟨entry, mem⟩ := List.exists_mem_of_ne_nil _ some_reached
      obtain ⟨⟨key, has⟩, reached⟩ := ClassRecord.mem_reached.1 mem
      exact ⟨key, entry, has, reached⟩
  rw [uses, methods]
  simp [isNeeded, or_assoc]

/-- Whatever is reachable or needed in the first analysis is so in the second one. -/
structure Analysis.IsWithin (first second : Analysis) : Prop where
  reached : ∀ {id}, first.IsReached id → second.IsReached id
  needed : ∀ {name cls}, first.class? name = some cls → cls.isNeeded = true →
    ∃ record, second.class? name = some record ∧ record.isNeeded = true

theorem Analysis.IsWithin.of_isEmpty {first second : Analysis} (empty : first.classes = ∅) :
    first.IsWithin second := by
  refine ⟨fun {id} reached => absurd reached (not_isReached_of_isEmpty empty), fun found => ?_⟩
  rw [class?_of_isEmpty empty] at found
  cases found

/-- What holds of the states of two runs holds of their results. -/
theorem State.Under.isWithin (final : upper.Final { setting with requirement := more })
    (valid : state.Valid setting) (under : state.Under setting upper) :
    state.result.IsWithin upper.result := by
  refine ⟨fun {id} reached => ?_, fun {name cls} found needed => ?_⟩
  · rw [isReached_result] at reached ⊢
    exact under.reached reached
  · rw [class?_result] at found ⊢
    obtain ⟨record, found', _⟩ := under.exists_linked final valid found
    have below := under.classes found found'
    refine ⟨record, found', ClassRecord.isNeeded_iff.2 ?_⟩
    rcases ClassRecord.isNeeded_iff.1 needed with
      has | ⟨use, other, used⟩ | ⟨key, entry, has, reached⟩
    · exact .inl (below.hasInstances has)
    · exact .inr (.inl ⟨use, other, below.uses used⟩)
    · have reached : state.IsReached ⟨name, key.space, key.name⟩ :=
        isReached_iff.2 ⟨cls, found, entry, has, reached⟩
      obtain ⟨_, at_, later, has', reached'⟩ := isReached_iff.1 (under.reached reached)
      obtain rfl := Option.some.inj (found'.symm.trans at_)
      exact .inr (.inr ⟨key, later, has', reached'⟩)

/-- If more is required, what has been reachable stays reachable, and what has been needed stays
needed, exactly if this holds of whatever the first analysis relays: the reachable methods that are
bridges or proxies or are called reflectively or in place of inherited code, and those that they
call. -/
theorem isWithin_iff_relayed {loader later after last : Loader} {requirement extra : Requirement}
    {first second : Analysis} (coherent : loader.knows.IsCoherent) (loads : loader.Loads later)
    (ends : analyze true requirement loader = (.ok first, after))
    (ends' : analyze true (requirement + extra) later = (.ok second, last)) :
    first.IsWithin second ↔
      ∀ id, Relayed loader.knows first.method? id → second.IsReached id := by
  refine ⟨fun within id => ?_, fun relays => ?_⟩
  · rintro ⟨entry, at_, reached, _⟩
    exact within.reached ⟨entry, at_, reached⟩
  rcases analyze_eq_result ends with ⟨_, _, _, rfl⟩ | ⟨_, _, empty⟩ |
    ⟨root, steps, begun, state, known, isRoot, begins, settles, rfl⟩
  · exact .of_isEmpty rfl
  · exact .of_isEmpty empty
  rcases analyze_eq_result ends' with ⟨_, empty, entries, rfl⟩ | ⟨_, unrooted, _⟩ |
    ⟨root', steps', begun', upper, known', isRoot', begins', settles', rfl⟩
  · -- Where the sum asks for nothing, so do its parts.
    have idle : analyze true requirement loader = (.ok {}, loader) := by
      unfold analyze
      simp [Requirement.isEmpty_of_add empty, loads.entryPoints_eq.symm.trans entries]
    rw [idle] at ends
    have same : {} = state.result := Except.ok.inj (congrArg Prod.fst ends)
    exact .of_isEmpty (by rw [← same])
  · rw [Loader.Loads.knows loads] at unrooted
    exact absurd ⟨root, known, isRoot⟩ unrooted
  let setting := loader.runs true requirement
  -- The second run may load from a cache, but it sees the same classes and entry points.
  let wider : Setting := { setting with requirement := requirement + extra }
  have fair : setting.IsFair := Loader.isFair_settingFor ⟨root, known, isRoot⟩
  have fair' : wider.IsFair := ⟨fair.rooted, closed_true _, .inl fun _ => trivial⟩
  obtain ⟨order, _, turns⟩ := State.turns_of_settle fair known isRoot
    (Loader.Loads.knows begins).symm settles
  rw [Loader.Loads.knows loads] at known'
  rw [loads.entryPoints_eq] at settles'
  obtain ⟨order', settled, turns'⟩ := @State.turns_of_settle wider _ fair' root' known' isRoot'
    _ _ _ (Loader.Loads.knows (loads.trans begins')).symm settles'
  have final : upper.Final wider :=
    ⟨order', settled, Turns.rests fair' (State.valid_empty wider) turns' (State.rests_empty wider)⟩
  have methods : state.result.method? = state.method? := funext state.method?_result
  refine State.Under.isWithin final order.valid (Turns.staysUnder (fun _ => trivial) fair final
    coherent rfl ?_ (fun id relayed => ?_) turns)
  · show requirement.tasks false ⊆ (requirement + extra).tasks false
    rw [Requirement.tasks_add]
    exact List.subset_append_left ..
  · exact State.isReached_result.1 (relays id (methods ▸ relayed))

/-- A method is called on instances of the class. -/
def callOn (name : ClassName) : Requirement :=
  .every [.instances "tests" name .defaultConstructor, .call "tests" name ⟨"foo__V"⟩]

/-- Tells whether all methods that are reachable in the first analysis are so in the second one. -/
def Analysis.keepsReached (first second : Analysis) : Bool :=
  first.classes.toList.all fun known => known.2.methods.toList.all fun entered =>
    !entered.2.isReached ||
      (second.method? ⟨known.1, entered.1.space, entered.1.name⟩).any MethodRecord.isReached

theorem Analysis.IsReached.kept {first second : Analysis} {id : MethodId}
    (reached : first.IsReached id) (keeps : first.keepsReached second = true) :
    second.IsReached id := by
  obtain ⟨entry, at_, reached⟩ := reached
  obtain ⟨cls, found, has⟩ := Option.bind_eq_some_iff.1 at_
  have kept := List.all_eq_true.1 keeps (id.owner, cls)
    (Std.ExtTreeMap.mem_toList_iff_getElem?_eq_some.2 found)
  have kept := List.all_eq_true.1 kept (id.key, entry)
    (Std.ExtTreeMap.mem_toList_iff_getElem?_eq_some.2 has)
  simp only [reached, Bool.not_true, Bool.false_or] at kept
  obtain ⟨later, at_', reached'⟩ := (Option.any_eq_true ..).1 kept
  exact ⟨later, at_', reached'⟩

/-- The bridge of the upper class is there in either case. -/
theorem isWithin_belowBridge :
    ∃ first second after last,
      analyze true (callOn ⟨"B"⟩) (Loader.ofDecls (belowBridge [⟨"J"⟩])) = (.ok first, after) ∧
      analyze true (callOn ⟨"B"⟩ + callOn ⟨"A"⟩) (Loader.ofDecls (belowBridge [⟨"J"⟩])) =
        (.ok second, last) ∧
      first.IsWithin second := by
  have coherent : (Loader.ofDecls (belowBridge [⟨"J"⟩])).knows.IsCoherent :=
    Universe.IsDeclared.isCoherent (Loader.isDeclared_ofDecls (by decide +kernel))
  have told : ((analyze true (callOn ⟨"B"⟩)
      (Loader.ofDecls (belowBridge [⟨"J"⟩]))).1.toOption.bind fun first =>
        (analyze true (callOn ⟨"B"⟩ + callOn ⟨"A"⟩)
          (Loader.ofDecls (belowBridge [⟨"J"⟩]))).1.toOption.map first.keepsReached) =
      some true := by decide +kernel
  generalize ends : analyze true (callOn ⟨"B"⟩) (Loader.ofDecls (belowBridge [⟨"J"⟩])) = outcome
    at told
  generalize ends' : analyze true (callOn ⟨"B"⟩ + callOn ⟨"A"⟩)
    (Loader.ofDecls (belowBridge [⟨"J"⟩])) = outcome' at told
  obtain ⟨_ | first, after⟩ := outcome
  · cases told
  obtain ⟨_ | second, last⟩ := outcome'
  · cases told
  refine ⟨first, second, after, last, rfl, rfl,
    (isWithin_iff_relayed coherent .refl ends ends').2 fun id relayed => ?_⟩
  obtain ⟨entry, at_, reached, _⟩ := relayed
  have reached : first.IsReached id := ⟨entry, at_, reached⟩
  exact reached.kept (Option.some.inj told)

/-- If the method is called on the lower class alone, it gets a bridge of its own to the default
method that it inherits. But if it is called on the upper class too, the bridge that is added there
is found for the lower class, and the default method is no longer reachable. -/
theorem not_isWithin_belowBridge :
    ∃ first second after last,
      analyze true (callOn ⟨"A"⟩) (Loader.ofDecls (belowBridge [⟨"J"⟩])) = (.ok first, after) ∧
      analyze true (callOn ⟨"A"⟩ + callOn ⟨"B"⟩) (Loader.ofDecls (belowBridge [⟨"J"⟩])) =
        (.ok second, last) ∧
      first.IsReached ⟨⟨"J"⟩, .publicInstance, ⟨"foo__V"⟩⟩ ∧
      ¬ second.IsReached ⟨⟨"J"⟩, .publicInstance, ⟨"foo__V"⟩⟩ ∧ ¬ first.IsWithin second := by
  have told : ((analyze true (callOn ⟨"A"⟩)
      (Loader.ofDecls (belowBridge [⟨"J"⟩]))).1.toOption.map fun first =>
        (first.method? ⟨⟨"J"⟩, .publicInstance, ⟨"foo__V"⟩⟩).map MethodRecord.isReached) =
      some (some true) := by decide +kernel
  have told' : ((analyze true (callOn ⟨"A"⟩ + callOn ⟨"B"⟩)
      (Loader.ofDecls (belowBridge [⟨"J"⟩]))).1.toOption.map fun second =>
        (second.method? ⟨⟨"J"⟩, .publicInstance, ⟨"foo__V"⟩⟩).map MethodRecord.isReached) =
      some (some false) := by decide +kernel
  generalize ends : analyze true (callOn ⟨"A"⟩) (Loader.ofDecls (belowBridge [⟨"J"⟩])) = outcome
    at told
  generalize ends' : analyze true (callOn ⟨"A"⟩ + callOn ⟨"B"⟩)
    (Loader.ofDecls (belowBridge [⟨"J"⟩])) = outcome' at told'
  obtain ⟨_ | first, after⟩ := outcome
  · cases told
  obtain ⟨_ | second, last⟩ := outcome'
  · cases told'
  obtain ⟨entry, at_, reached⟩ := Option.map_eq_some_iff.1 (Option.some.inj told)
  obtain ⟨entry', at_', unreached⟩ := Option.map_eq_some_iff.1 (Option.some.inj told')
  have lost : ¬ second.IsReached ⟨⟨"J"⟩, .publicInstance, ⟨"foo__V"⟩⟩ := by
    rintro ⟨later, h, reached⟩
    obtain rfl := Option.some.inj (at_'.symm.trans h)
    rw [unreached] at reached
    cases reached
  exact ⟨first, second, after, last, rfl, rfl, ⟨entry, at_, reached⟩, lost,
    fun within => lost (within.reached ⟨entry, at_, reached⟩)⟩

end ClassLinker
