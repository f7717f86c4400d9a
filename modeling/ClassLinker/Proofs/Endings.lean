import ClassLinker.Proofs.Budget
import ClassLinker.Proofs.Terminal

/-!
# Every search ends

The searches within a run are bounded by the size of the table. Here they are once more as relations
that know of no bound, each of which is the search that has come to its end:

* `State.Climbs` goes up the super classes of a class. It ends as no linked class is above itself
  (`State.climbs_superChain`);
* `Visits` takes nodes of a graph off a stack until it is empty, and never visits a node twice. It
  ends as every node that is ever on the stack lies in a finite domain (`visits_preorder`);
* `LinkRun` links the parents of a class, each with its own parents, and then the class. It ends as
  the path of classes that are being linked has no repetitions (`State.linkRun_linkAbove`).

Together with the bound for the steps of a run this gives `analyze_terminates`.
-/

namespace ClassLinker

/-! ### Super classes -/

namespace State

/-- Going up the super classes from a class, without any bound, comes to an end, after having met
these classes. -/
inductive Climbs (state : State) : ClassName → List ClassRecord → Prop
  | unlinked {name : ClassName} (unlinked : state.class? name = none) : Climbs state name []
  | highest {name : ClassName} {cls : ClassRecord} (found : state.class? name = some cls)
      (highest : cls.superClass = none) : Climbs state name [cls]
  | above {name parent : ClassName} {cls : ClassRecord} {chain : List ClassRecord}
      (found : state.class? name = some cls) (extends_ : cls.superClass = some parent)
      (climbs : Climbs state parent chain) : Climbs state name (cls :: chain)

variable {state : State} {world : Universe} {name : ClassName} {cls : ClassRecord}

/-- The ancestors of a class are enough steps to come to the end. -/
theorem climbs_superChainUpTo (follows : Follows world state.class?) (rooted : world.IsRooted)
    {steps : Nat} (found : state.class? name = some cls) (enough : cls.ancestors.length ≤ steps) :
    state.Climbs name (state.superChainUpTo steps name) := by
  induction steps generalizing name cls with
  | zero =>
    have positive := List.length_pos_of_mem (follows.self_mem rooted found)
    omega
  | succ steps ih =>
    simp only [superChainUpTo, found]
    cases extends_ : cls.superClass with
    | none => exact .highest found extends_
    | some parent =>
      obtain ⟨record, above⟩ :=
        follows.ancestor found (follows.superClass_mem rooted found extends_)
      have shorter := follows.length_superClass_lt rooted found extends_ above
      exact .above found extends_ (ih above (by omega))

/-- The chain of super classes of any class comes to its end before it is cut off. -/
theorem climbs_superChain (follows : Follows world state.class?) (rooted : world.IsRooted)
    (name : ClassName) : state.Climbs name (state.superChain name) := by
  cases found : state.class? name with
  | some cls => exact climbs_superChainUpTo follows rooted found (length_ancestors_le follows found)
  | none =>
    have empty : state.superChain name = [] := by
      unfold superChain
      cases state.table.size <;> simp only [superChainUpTo, found]
    rw [empty]
    exact .unlinked found

end State

/-! ### Depth-first searches -/

/-- Taking nodes off a stack, with those that have been seen, comes to an end, and visits the others
in this order. -/
inductive Visits {α : Type} (next : α → List α) : List α → List α → List α → Prop
  | done {seen : List α} : Visits next seen [] []
  | skip {seen rest order : List α} {node : α} (known : node ∈ seen)
      (later : Visits next seen rest order) : Visits next seen (node :: rest) order
  | visit {seen rest order : List α} {node : α} (new : node ∉ seen)
      (later : Visits next (node :: seen) (next node ++ rest) order) :
      Visits next seen (node :: rest) (node :: order)

section

variable {α : Type} {next : α → List α} {seen rest order : List α}

theorem Visits.skipAll {skipped : List α} (known : ∀ node ∈ skipped, node ∈ seen)
    (later : Visits next seen rest order) : Visits next seen (skipped ++ rest) order := by
  induction skipped with
  | nil => exact later
  | cons node skipped ih =>
    exact .skip (known node List.mem_cons_self)
      (ih fun other mem => known other (List.mem_cons_of_mem _ mem))

variable [Ord α] [Std.TransOrd α] [Std.LawfulEqOrd α]

/-- A search of a finite domain that nothing leads out of visits each node that it comes to. The
nodes that have been seen are those that are missing in what is left of the domain. -/
theorem visits_preorder (whole : Std.ExtTreeSet α) {domain : Std.ExtTreeSet α} {pending : List α}
    (closed : ∀ node, ∀ target ∈ next node, whole.contains target = true)
    (left : ∀ node, domain.contains node = true ↔ whole.contains node = true ∧ node ∉ seen)
    (inside : ∀ node ∈ pending, whole.contains node = true) :
    Visits next seen pending (preorder next domain pending) := by
  have outside : ∀ {domain : Std.ExtTreeSet α} {seen pending : List α},
      (∀ node, domain.contains node = true ↔ whole.contains node = true ∧ node ∉ seen) →
        (∀ node ∈ pending, whole.contains node = true) →
          ∀ node ∈ pending.takeWhile (fun node => !domain.contains node), node ∈ seen := by
    intro domain seen pending left inside node mem
    have out := List.mem_takeWhile_imp mem
    by_contra new
    rw [(left node).2 ⟨inside node ((List.takeWhile_prefix _).subset mem), new⟩] at out
    cases out
  induction domain, pending using preorder.induct next generalizing seen with
  | case1 domain pending none =>
    have known := outside left inside
    have split := List.takeWhile_append_dropWhile (p := fun node => !domain.contains node)
      (l := pending)
    rw [preorder_of_dropWhile_eq_nil none, ← split, none]
    exact .skipAll known .done
  | case2 domain pending node rest found ih =>
    have known := outside left inside
    have split := List.takeWhile_append_dropWhile (p := fun node => !domain.contains node)
      (l := pending)
    have kept : ∀ other ∈ node :: rest, whole.contains other = true := fun other mem =>
      inside other ((List.dropWhile_sublist _).subset (found ▸ mem))
    have new : node ∉ seen := ((left node).1 (contains_of_dropWhile_eq_cons found)).2
    rw [preorder_of_dropWhile_eq_cons found, ← split, found]
    refine .skipAll known (.visit new (ih (fun other => ?_) fun other mem => ?_))
    · rw [Std.ExtTreeSet.contains_erase, List.mem_cons]
      by_cases same : other = node
      · simp [same]
      · simp [same, Ne.symm same, left other]
    · exact (List.mem_append.1 mem).elim (closed node other)
        fun later => kept other (List.mem_cons_of_mem _ later)

end

/-! ### Linking -/

/-- Linking the remaining parents of a class, and then the class, without any bound for the length
of the path, comes to an end with this result. -/
inductive LinkRun :
    List ClassName → ClassName → List ClassName → State → Option ClassName → State → Prop
  | finish {path : List ClassName} {name : ClassName} {state : State} :
      LinkRun path name [] state none (state.linkOne name)
  | pass {path rest : List ClassName} {name parent : ClassName} {state next : State}
      {result : Option ClassName} (skipped : state.isLoaded parent = false)
      (later : LinkRun path name rest state result next) :
      LinkRun path name (parent :: rest) state result next
  | cycle {path rest : List ClassName} {name parent : ClassName} {state : State}
      (loaded : state.isLoaded parent = true) (closes : parent ∈ name :: path) :
      LinkRun path name (parent :: rest) state (some parent)
        (state.failCycle (parent :: ((name :: path).takeWhile (· ≠ parent)).reverse) parent)
  /-- Either the parent has been linked, or it is the class at which a cycle begins. -/
  | climb {path rest : List ClassName} {name parent : ClassName} {state middle next : State}
      {found result : Option ClassName} (loaded : state.isLoaded parent = true)
      (new : parent ∉ name :: path)
      (above : LinkRun (name :: path) parent (state.openParents parent) state found middle)
      (goesOn : found = none ∨ found = some parent)
      (later : LinkRun path name rest middle result next) :
      LinkRun path name (parent :: rest) state result next
  | unwind {path rest : List ClassName} {name parent start : ClassName} {state next : State}
      (loaded : state.isLoaded parent = true) (new : parent ∉ name :: path)
      (above : LinkRun (name :: path) parent (state.openParents parent) state (some start) next)
      (below : start ≠ parent) : LinkRun path name (parent :: rest) state (some start) next

namespace State

variable {state : State} {name other : ClassName} {path : List ClassName}

/-! #### What is loaded -/

theorem isLoaded_of_setStatus {status : Status} (settled : status.isLoaded = false)
    (still : (state.setStatus name status).isLoaded other = true) :
    state.isLoaded other = true := by
  unfold isLoaded at still ⊢
  rw [status?_setStatus] at still
  split at still
  · rw [Option.any_some, settled] at still
    cases still
  · exact still

theorem table_checkSuperClass (state : State) (name : ClassName) (kind : ClassKind)
    (superClass : Option ClassName) :
    (state.checkSuperClass name kind superClass).2.table = state.table := by
  unfold checkSuperClass
  split
  · split <;> rfl
  · split
    · rfl
    · split
      · rfl
      · split <;> rfl

theorem table_checkInterfaces (name : ClassName) (kind : ClassKind)
    (interfaces : List ClassName) (state : State) :
    (state.checkInterfaces name kind interfaces).2.table = state.table := by
  induction interfaces generalizing state with
  | nil => rfl
  | cons interface rest ih =>
    unfold checkInterfaces
    split
    · exact ih state
    · split
      · exact ih _
      · split
        · exact ih _
        · exact ih _

/-- Linking one class loads none. -/
theorem isLoaded_of_linkOne (still : (state.linkOne name).isLoaded other = true) :
    state.isLoaded other = true := by
  unfold linkOne at still
  split at still
  · exact @isLoaded_of_setStatus state name other _ rfl still
  · rename_i summary parked _
    split at still
    · exact isLoaded_of_setStatus rfl still
    · let super := state.checkSuperClass name summary.kind summary.superClass
      let checked := (super.2.checkInterfaces name summary.kind summary.interfaces).2
      have same : checked.table = state.table :=
        (table_checkInterfaces ..).trans (table_checkSuperClass ..)
      have before : checked.isLoaded other = true :=
        @isLoaded_of_setStatus checked name other _ rfl still
      unfold isLoaded status? at before ⊢
      rwa [same] at before
  · exact still

/-- Neither does failing the classes of a cycle. -/
theorem isLoaded_of_failCycle {classes : List ClassName} {closing : ClassName}
    (still : (state.failCycle classes closing).isLoaded other = true) :
    state.isLoaded other = true := by
  unfold isLoaded at still ⊢
  rw [status?_failCycle] at still
  split at still
  · cases still
  · exact still

/-! #### The search -/

/-- A path of classes that are being linked has no repetitions. All that is on it was loaded in the
beginning, and so is all that is loaded now. -/
structure OnPath (start state : State) (name : ClassName) (path : List ClassName) : Prop where
  nodup : (name :: path).Nodup
  loaded : ∀ cls ∈ name :: path, start.isLoaded cls = true
  fewer : ∀ {cls}, state.isLoaded cls = true → start.isLoaded cls = true

variable {start : State} {bound depth : Nat}

/-- The parents of a class are linked without reaching the bound if each of them is. -/
theorem linkRun_linkParents
    (visit : ∀ {state : State} {name : ClassName} {path : List ClassName},
      OnPath start state name path → bound < path.length + depth →
        LinkRun path name (state.openParents name) state (linkAbove depth path name state).1
            (linkAbove depth path name state).2 ∧
          ∀ {cls}, (linkAbove depth path name state).2.isLoaded cls = true →
            state.isLoaded cls = true)
    (enough : bound < path.length + 1 + depth) (rest : List ClassName)
    (onPath : OnPath start state name path) :
    let result := linkParents (linkAbove depth (name :: path)) path name rest state
    LinkRun path name rest state result.1 result.2 ∧
      ∀ {cls}, result.2.isLoaded cls = true → state.isLoaded cls = true := by
  induction rest generalizing state with
  | nil => exact ⟨.finish, isLoaded_of_linkOne⟩
  | cons parent rest ih =>
    simp only [linkParents]
    cases loaded : state.isLoaded parent with
    | false =>
      obtain ⟨run, fewer⟩ := ih onPath
      exact ⟨.pass loaded run, fewer⟩
    | true =>
      simp only [Bool.not_true, Bool.false_eq_true, if_false]
      by_cases closes : parent ∈ name :: path
      · rw [if_pos closes]
        exact ⟨.cycle loaded closes, isLoaded_of_failCycle⟩
      · rw [if_neg closes]
        have longer : OnPath start state parent (name :: path) :=
          ⟨List.nodup_cons.2 ⟨closes, onPath.nodup⟩,
            List.forall_mem_cons.2 ⟨onPath.fewer loaded, onPath.loaded⟩, onPath.fewer⟩
        obtain ⟨above, fewer⟩ := visit longer (by simpa using enough)
        generalize linkAbove depth (name :: path) parent state = visited at above fewer
        obtain ⟨found, middle⟩ := visited
        -- Linking goes on with the next parent, unless a cycle begins further down the path.
        have proceed : found = none ∨ found = some parent →
            let result := linkParents (linkAbove depth (name :: path)) path name rest middle
            LinkRun path name (parent :: rest) state result.1 result.2 ∧
              ∀ {cls}, result.2.isLoaded cls = true → state.isLoaded cls = true := by
          intro goesOn
          obtain ⟨later, still⟩ :=
            @ih middle ⟨onPath.nodup, onPath.loaded, fun h => onPath.fewer (fewer h)⟩
          exact ⟨.climb loaded closes above goesOn later, fun h => fewer (still h)⟩
        cases found with
        | none => exact proceed (.inl rfl)
        | some start =>
          by_cases same : start = parent
          · subst same
            simp only [if_true]
            exact proceed (.inr rfl)
          · simp only [if_neg same]
            exact ⟨.unwind loaded closes above same, fewer⟩

/-- A path that is shorter than the bound by more than the depth never reaches it. -/
theorem linkRun_linkAbove (bounded : start.IsBounded bound) (onPath : OnPath start state name path)
    (enough : bound < path.length + depth) :
    LinkRun path name (state.openParents name) state (linkAbove depth path name state).1
        (linkAbove depth path name state).2 ∧
      ∀ {cls}, (linkAbove depth path name state).2.isLoaded cls = true →
        state.isLoaded cls = true := by
  induction depth generalizing state name path with
  | zero =>
    have short := bounded (name :: path) onPath.nodup onPath.loaded
    rw [List.length_cons] at short
    omega
  | succ depth ih => exact linkRun_linkParents ih (by omega) _ onPath

/-- Linking a loaded class never reaches the bound that the size of the table sets. -/
theorem linkRun_of_isLoaded (loaded : state.isLoaded name = true) :
    LinkRun [] name (state.openParents name) state
      (linkAbove (state.table.size + 1) [] name state).1
      (linkAbove (state.table.size + 1) [] name state).2 := by
  have onPath : OnPath state state name [] :=
    ⟨by simp, fun cls mem => List.mem_singleton.1 mem ▸ loaded, id⟩
  exact (linkRun_linkAbove (isBounded_size state) onPath (by simp)).1

/-- The search for what a loaded class inherits from visits each class that it comes to. -/
theorem visits_lineage (loaded : state.isLoaded name = true) :
    Visits (fun name => (state.openParents name).reverse) [] [name] (state.lineage name) := by
  obtain ⟨_, _, status⟩ := isLoaded_iff.1 loaded
  refine visits_preorder state.knownNames
    (fun child parent mem => contains_knownNames_of_mem (List.mem_reverse.1 mem))
    (fun other => by simp) fun other mem => ?_
  rw [List.mem_singleton.1 mem]
  exact contains_knownNames ⟨_, status⟩

end State

/-! ### Analyses -/

/-- An analysis terminates, whatever the classes, the requirement and the entry points. Its loop,
which does one task after the other and loads the classes that are wanted, ends by itself within the
steps that it is allowed. The searches within a step end too: those up the super classes in every
state that changes can lead to, and in any state those for the ancestors of a loaded class, and for
what is to be linked with it. -/
theorem analyze_terminates (allow : Bool) (requirement : Requirement) (loader : Loader) :
    (analyze allow requirement loader).1 ≠ .error .outOfSteps ∧
    (∀ root after, loader.loadSummary .object = (.ok (some root), after) → root.isRoot = true →
      ∃ count ≤ stepBudget after requirement,
        (State.start allow root requirement loader.entryPoints).Ends count after) ∧
    (∀ state, loader.knows.IsRooted → Moves (loader.settingFor allow requirement fun _ => True)
        { allowForwarders := allow } state →
      ∀ name, state.Climbs name (state.superChain name)) ∧
    ∀ (state : State) (name : ClassName), state.isLoaded name = true →
      Visits (fun name => (state.openParents name).reverse) [] [name] (state.lineage name) ∧
      LinkRun [] name (state.openParents name) state
        (State.linkAbove (state.table.size + 1) [] name state).1
        (State.linkAbove (state.table.size + 1) [] name state).2 := by
  refine ⟨analyze_ne_outOfSteps allow requirement loader,
    fun root after loads isRoot => exists_ends_start loads isRoot,
    fun state rooted moves name => ?_,
    fun state name loaded => ⟨State.visits_lineage loaded, State.linkRun_of_isLoaded loaded⟩⟩
  have valid := Moves.valid (Loader.isFair_settingFor rooted) moves (State.valid_empty _)
  exact State.climbs_superChain valid.follows rooted name

/-- Two classes that extend one another, one below them, and one whose methods call themselves, one
of them also by the name of its proxy. -/
def circular : List ClassDecl :=
  cyclic ++
    [.ofMethods ⟨"D"⟩ .plain [.object]
      [.plain .constructor .defaultConstructor (some .skip),
        .plain .publicInstance ⟨"m__V"⟩ (some (.block
          [.call ⟨"D"⟩ .self ⟨"m__V"⟩ [], .call ⟨"D"⟩ .self ⟨"m__"⟩ []])),
        .plain .publicStatic ⟨"main__V"⟩ (some (.block
          [.callStatic ⟨"D"⟩ .publicStatic ⟨"main__V"⟩ [],
            .call ⟨"D"⟩ (.new ⟨"D"⟩ .defaultConstructor []) ⟨"m__V"⟩ [],
            .new ⟨"C"⟩ .defaultConstructor []]))]]

/-- The analysis ends, with a chain of super classes that ends and a cycle that fails. -/
theorem analyze_terminates_circular :
    let loader := Loader.ofDecls circular
    let requirement : Requirement := .callStatic "test" ⟨"D"⟩ ⟨"main__V"⟩
    let looped := (({ allowForwarders := true } : State).receive ⟨"A"⟩ (loader.knows ⟨"A"⟩)).receive
      ⟨"B"⟩ (loader.knows ⟨"B"⟩)
    (analyze true requirement loader).1 ≠ .error .outOfSteps ∧
    (∃ root after count, loader.loadSummary .object = (.ok (some root), after) ∧
      (State.start true root requirement loader.entryPoints).Ends count after) ∧
    (∃ state : State, (state.class? ⟨"D"⟩).isSome = true ∧
      state.Climbs ⟨"D"⟩ (state.superChain ⟨"D"⟩)) ∧
    ∃ next, LinkRun [] ⟨"A"⟩ [⟨"B"⟩] looped (some ⟨"A"⟩) next ∧
      next.status? ⟨"A"⟩ = some .failed := by
  intro loader requirement looped
  obtain ⟨allowed, ends, climbs, searches⟩ := analyze_terminates true requirement loader
  refine ⟨allowed, ?_, ?_, ?_⟩
  · let root : ClassSummary := (ClassDecl.ofMethods .object .plain [] []).summary
    have known : (loader.loadSummary .object).1 = .ok (some root) := by decide +kernel
    obtain ⟨count, _, ends⟩ := ends root (loader.loadSummary .object).2 (Prod.ext known rfl) rfl
    exact ⟨root, _, count, Prod.ext known rfl, ends⟩
  · have told : (analyze true requirement loader).1.toOption.map (fun analysis =>
        (analysis.class? ⟨"D"⟩).isSome) = some true := by decide +kernel
    obtain ⟨analysis, after, found, told⟩ := exists_of_toOption_map told
    obtain ⟨cls, known⟩ := Option.isSome_iff_exists.1 told
    obtain ⟨state, reaches, has, _⟩ := exists_reached_of_analyze found known
    exact ⟨state, by rw [has]; rfl,
      climbs state reaches.rooted (Turns.moves reaches.isFair reaches.turns) ⟨"D"⟩⟩
  · have loaded : looped.isLoaded ⟨"A"⟩ = true := by decide +kernel
    have parents : looped.openParents ⟨"A"⟩ = [⟨"B"⟩] := by decide +kernel
    have result : (State.linkAbove (looped.table.size + 1) [] ⟨"A"⟩ looped).1 = some ⟨"A"⟩ := by
      decide +kernel
    have run := (searches looped ⟨"A"⟩ loaded).2
    rw [parents, result] at run
    exact ⟨_, run, by decide +kernel⟩

end ClassLinker
