import ClassLinker.Proofs.Inheritance
import Mathlib.Data.List.Chain
import Mathlib.Data.List.TakeWhile

/-!
# Linking depth first

`State.linkAbove` links a class together with its loaded ancestors, provided that all of them are
available (`State.IsReady`). The path of classes being linked is a chain of the inheritance relation
without repetitions, so it is shorter than the table, and a parent that lies on it closes a cycle.

* `State.linkSteps_linkAbove`: the class gets settled, and of the path only the part on a cycle;
* `mem_preorder` and `exists_of_mem_preorder`: a search of a graph finds what can be reached inside
  its domain.
-/

namespace ClassLinker

variable {setting : Setting} {state next : State}
variable {name other : ClassName} {cls record : ClassRecord} {summary : ClassSummary}
variable {path : List ClassName}

/-! ### Cycles -/

/-- Each class is a parent of the one after it. -/
abbrev Universe.IsPath (world : Universe) (path : List ClassName) : Prop :=
  path.IsChain (Function.swap world.Extends)

/-- If the first class of a path names one of the path as a parent, then the part of the path up to
that one is a cycle. -/
theorem Universe.IsPath.isCycle {world : Universe} {inner outer : List ClassName}
    {parent : ClassName} (chain : world.IsPath (inner ++ parent :: outer))
    (nodup : (inner ++ [parent]).Nodup)
    (closes : ∃ first, (inner ++ [parent]).head? = some first ∧ world.Extends first parent) :
    world.IsCycle parent inner.reverse where
  nodup := by
    have reversed : (inner ++ [parent]).reverse.Nodup := List.pairwise_reverse.2 (nodup.imp Ne.symm)
    rwa [List.reverse_append] at reversed
  chain := by
    have inside : world.IsPath (inner ++ [parent]) := by
      rw [List.append_cons] at chain
      exact chain.left_of_append
    have closed : world.IsPath (parent :: (inner ++ [parent])) := by
      obtain ⟨first, head, extends_⟩ := closes
      obtain ⟨rest, split⟩ := List.head?_eq_some_iff.1 head
      rw [split] at inside ⊢
      exact .cons_cons extends_ inside
    have reversed := List.isChain_reverse.2 closed
    rwa [List.reverse_cons, List.reverse_append] at reversed

namespace State

/-- Everything that a class inherits from, as far as loaded, is available. -/
def IsReady (state : State) (name : ClassName) : Prop :=
  ∀ above, Relation.ReflTransGen (fun child parent => parent ∈ state.openParents child) name above →
    state.isAvailable above = true

theorem IsReady.mono (ready : state.IsReady name) (progress : state.Progresses next) :
    next.IsReady name := fun above reaches =>
  progress.isAvailable (ready above
    ((Relation.ReflTransGen.mono fun child _ mem => progress.openParents_subset child mem) _ _
      reaches))

theorem IsReady.parent (ready : state.IsReady name) {parent : ClassName}
    (mem : parent ∈ state.openParents name) : state.IsReady parent :=
  fun above reaches => ready above (.head mem reaches)

/-- A class that is available is loaded or settled. -/
theorem settled_of_available (available : state.isAvailable name = true)
    (notLoaded : ¬ state.isLoaded name = true) : state.IsSettledClass name := by
  unfold isAvailable at available
  cases h : state.status? name with
  | none => rw [h] at available; cases available
  | some status =>
    cases status with
    | awaited => rw [h] at available; cases available
    | loaded => exact absurd (isLoaded_of_status h) notLoaded
    | linked cls => exact .inl ⟨cls, class?_eq_some.2 h⟩
    | failed => exact .inr h

/-- A declared parent of a loaded class is one in the universe. -/
theorem Valid.extends_of_mem (valid : state.Valid setting) {parent : ClassName}
    (mem : parent ∈ state.openParents name) : setting.world.Extends name parent := by
  unfold openParents at mem
  split at mem
  · rename_i summary _ status
    exact ⟨summary, (valid.loaded status).symm, mem⟩
  · cases mem

/-- No list of known classes is longer than `bound`. -/
def IsBounded (state : State) (bound : Nat) : Prop :=
  ∀ names : List ClassName, names.Nodup → (∀ name ∈ names, state.isLoaded name = true) →
    names.length ≤ bound

theorem IsBounded.mono {bound : Nat} (bounded : state.IsBounded bound)
    (progress : state.Progresses next) : next.IsBounded bound := fun names nodup loaded =>
  bounded names nodup fun name mem => progress.isLoaded (loaded name mem)

/-- What has become of the path of classes being linked, innermost first: if no cycle is to be left,
the first is settled, and otherwise all down to the one where the cycle begins have failed. The
others are still loaded. -/
def Outcome (state : State) (name : ClassName) (path : List ClassName) : Option ClassName → Prop
  | none => state.IsSettledClass name ∧ ∀ outer ∈ path, state.isLoaded outer = true
  | some start => ∃ inner outer, name :: path = inner ++ start :: outer ∧
      (∀ failed ∈ inner ++ [start], state.status? failed = some .failed) ∧
      ∀ loaded ∈ outer, state.isLoaded loaded = true

/-- If nothing lies further down the path, then the class is settled. -/
theorem Outcome.isSettledClass {result : Option ClassName}
    (outcome : state.Outcome name [] result) : state.IsSettledClass name := by
  cases result with
  | none => exact outcome.1
  | some start =>
    obtain ⟨inner, outer, split, failed, _⟩ := outcome
    refine .inr (failed name ?_)
    cases inner with
    | nil => exact List.mem_singleton.2 (List.cons.inj split).1
    | cons head rest =>
      exact absurd (List.cons.inj split).2.symm (List.append_ne_nil_of_right_ne_nil _ (by simp))

/-- If the cycle begins at the class itself, then the path below it is still loaded. -/
theorem Outcome.loaded_of_own (outcome : state.Outcome name path (some name))
    (notMem : name ∉ path) :
    state.status? name = some .failed ∧ ∀ outer ∈ path, state.isLoaded outer = true := by
  obtain ⟨inner, outer, split, failed, left⟩ := outcome
  have path_eq : path = outer := by
    cases inner with
    | nil => exact (List.cons.inj split).2
    | cons head inner =>
      have tail : path = inner ++ name :: outer := (List.cons.inj split).2
      exact absurd (tail ▸ List.mem_append_right _ List.mem_cons_self) notMem
  exact ⟨failed _ (by simp), path_eq ▸ left⟩

/-- If it begins further down, then the class below fails along with the first one. -/
theorem Outcome.below {start : ClassName}
    (outcome : state.Outcome other (name :: path) (some start)) (ne : start ≠ other) :
    state.Outcome name path (some start) := by
  obtain ⟨inner, outer, split, failed, left⟩ := outcome
  cases inner with
  | nil => exact absurd (List.cons.inj split).1.symm ne
  | cons head inner =>
    exact ⟨inner, outer, (List.cons.inj split).2,
      fun other mem => failed other (List.mem_cons_of_mem _ mem), left⟩

/-- The classes of a cycle fail. -/
theorem linkStep_failCycle (valid : state.Valid setting) {parent : ClassName}
    (chain : setting.world.IsPath (name :: path)) (nodup : (name :: path).Nodup)
    (loaded : ∀ cls ∈ name :: path, state.isLoaded cls = true)
    (ready : ∀ cls ∈ name :: path, state.IsReady cls)
    (closes : parent ∈ state.openParents name) (mem : parent ∈ name :: path) :
    let below := (name :: path).takeWhile (· ≠ parent)
    let after := state.failCycle (parent :: below.reverse) parent
    LinkStep setting state after ∧ after.Outcome name path (some parent) := by
  intro below after
  obtain ⟨inner, outer, split, first⟩ := List.eq_append_cons_of_mem mem
  have below_eq : below = inner := by
    have kept : ∀ other ∈ inner, decide (other ≠ parent) = true := fun other inside =>
      decide_eq_true (by rintro rfl; exact first inside)
    simp only [below, split]
    rw [List.takeWhile_append_of_pos kept, List.takeWhile_cons_of_neg (by simp), List.append_nil]
  have listed : ∀ other, other ∈ parent :: below.reverse ↔ other ∈ inner ++ [parent] := by
    intro other
    rw [below_eq, List.mem_cons, List.mem_reverse, List.mem_append, List.mem_singleton, or_comm]
  have split' : name :: path = (inner ++ [parent]) ++ outer := by rw [split, List.append_assoc]; rfl
  have onPath : ∀ other ∈ parent :: below.reverse, other ∈ name :: path := fun other mem =>
    split' ▸ List.mem_append_left _ ((listed other).1 mem)
  have apart : (inner ++ [parent]).Nodup ∧ outer.Nodup ∧ _ := List.nodup_append.1 (split' ▸ nodup)
  have cycle : setting.world.IsCycle parent below.reverse := by
    rw [below_eq]
    refine Universe.IsPath.isCycle (split ▸ chain) apart.1 ⟨name, ?_, valid.extends_of_mem closes⟩
    have head : ((inner ++ [parent]) ++ outer).head? = some name := by rw [← split']; rfl
    rwa [List.head?_append_of_ne_nil _ (by simp)] at head
  have step : LinkStep setting state after := by
    refine .cycle cycle (fun other mem => ?_) fun other mem above declares =>
      ready other (onPath other mem) above (.single declares)
    obtain ⟨summary, parked, status⟩ := isLoaded_iff.1 (loaded other (onPath other mem))
    obtain ⟨_, ⟨known, h, _⟩, _⟩ := Relation.TransGen.head'_iff.1 (cycle.leads mem mem)
    rw [valid.loaded status, h] at status
    exact ⟨known, parked, status⟩
  refine ⟨step, inner, outer, split, fun other inside => ?_, fun other outside => ?_⟩
  · rw [status?_failCycle, if_pos ((listed other).2 inside)]
  · have kept : after.status? other = state.status? other := by
      rw [status?_failCycle, if_neg]
      exact fun inside => apart.2.2 other ((listed other).1 inside) other outside rfl
    have before := loaded other (split' ▸ List.mem_append_right _ outside)
    unfold isLoaded at before ⊢
    rwa [kept]

/-! ### The search -/

/-- Everything that linking a class on a path relies on. -/
structure Searches (setting : Setting) (state : State) (bound : Nat) (name : ClassName)
    (path : List ClassName) : Prop where
  valid : state.Valid setting
  root : state.RootFirst
  bounded : state.IsBounded bound
  ready : ∀ cls ∈ name :: path, state.IsReady cls
  chain : setting.world.IsPath (name :: path)
  nodup : (name :: path).Nodup
  loaded : ∀ cls ∈ name :: path, state.isLoaded cls = true

namespace Searches

variable {bound : Nat}

/-- The search goes on after steps that leave the classes on the path loaded, with the same
parents. -/
theorem after (fair : setting.IsFair) (searches : Searches setting state bound name path)
    (steps : LinkSteps setting state next)
    (loaded : ∀ cls ∈ name :: path, next.isLoaded cls = true) :
    Searches setting next bound name path ∧ next.openParents name = state.openParents name := by
  have progress := LinkSteps.progress steps
  have grows := Changes.grows (LinkSteps.changes steps)
  refine ⟨⟨Changes.valid fair (LinkSteps.changes steps) searches.valid,
    searches.root.mono progress.isLoaded grows, searches.bounded.mono progress,
    fun cls mem => (searches.ready cls mem).mono progress, searches.chain, searches.nodup,
    loaded⟩, ?_⟩
  have same := progress.status_eq (loaded name List.mem_cons_self)
  unfold openParents
  rw [same]

/-- The search goes up to a parent that is loaded and not on the path yet. -/
theorem parent (searches : Searches setting state bound name path)
    (extends_ : other ∈ state.openParents name) (loaded : state.isLoaded other = true)
    (onPath : other ∉ name :: path) : Searches setting state bound other (name :: path) where
  valid := searches.valid
  root := searches.root
  bounded := searches.bounded
  ready := List.forall_mem_cons.2
    ⟨(searches.ready name List.mem_cons_self).parent extends_, searches.ready⟩
  chain := .cons_cons (searches.valid.extends_of_mem extends_) searches.chain
  nodup := List.nodup_cons.2 ⟨onPath, searches.nodup⟩
  loaded := by simpa [loaded] using searches.loaded

end Searches

/-- Linking the remaining parents of a class, and then the class, gets the class settled. -/
theorem linkSteps_linkParents (fair : setting.IsFair) {bound depth : Nat}
    (visit : ∀ {state : State} {name : ClassName} {path : List ClassName},
      Searches setting state bound name path → bound < path.length + depth →
        LinkSteps setting state (linkAbove depth path name state).2 ∧
          (linkAbove depth path name state).2.Outcome name path (linkAbove depth path name state).1)
    (enough : bound < path.length + 1 + depth) (rest : List ClassName) {state : State}
    (searches : Searches setting state bound name path)
    (declared : ∀ parent ∈ rest, parent ∈ state.openParents name)
    (done : ∀ parent ∈ state.openParents name, parent ∈ rest ∨ state.IsSettledClass parent) :
    let result := linkParents (linkAbove depth (name :: path)) path name rest state
    LinkSteps setting state result.2 ∧ result.2.Outcome name path result.1 := by
  induction rest generalizing state with
  | nil =>
    have parents : ∀ parent ∈ state.openParents name, state.IsSettledClass parent :=
      fun parent mem => (done parent mem).resolve_left (by rintro ⟨⟩)
    obtain ⟨steps, settled, same⟩ := linkSteps_linkOne fair searches.valid searches.root
      (searches.loaded name List.mem_cons_self) parents
    refine ⟨steps, settled, fun outer mem => ?_⟩
    have ne : outer ≠ name := by rintro rfl; exact (List.nodup_cons.1 searches.nodup).1 mem
    have before := searches.loaded outer (List.mem_cons_of_mem _ mem)
    show (state.linkOne name).isLoaded outer = true
    unfold isLoaded at before ⊢
    rw [same outer ne]
    exact before
  | cons parent rest ih =>
    intro result
    have extends_ := declared parent List.mem_cons_self
    -- Linking goes on with the next parent once this one is settled, or if it has been.
    have proceed : ∀ {next : State}, LinkSteps setting state next → next.IsSettledClass parent →
        (∀ cls ∈ name :: path, next.isLoaded cls = true) →
        let result := linkParents (linkAbove depth (name :: path)) path name rest next
        LinkSteps setting state result.2 ∧ result.2.Outcome name path result.1 := by
      intro next steps settled loaded
      obtain ⟨searches', parents⟩ := searches.after fair steps loaded
      obtain ⟨later, outcome⟩ := @ih next searches'
        (fun other mem => parents ▸ declared other (List.mem_cons_of_mem _ mem))
        fun other mem => by
          rcases done other (parents ▸ mem) with mem | settled'
          · rcases List.mem_cons.1 mem with rfl | mem
            · exact .inr settled
            · exact .inl mem
          · exact .inr ((LinkSteps.progress steps).settled settled')
      exact ⟨steps.trans later, outcome⟩
    have result_eq : result = linkParents (linkAbove depth (name :: path)) path name
      (parent :: rest) state := rfl
    rw [linkParents] at result_eq
    by_cases loaded : state.isLoaded parent = true
    · rw [loaded, Bool.not_true, if_neg Bool.false_ne_true] at result_eq
      by_cases onPath : parent ∈ name :: path
      · rw [if_pos onPath] at result_eq
        rw [result_eq]
        obtain ⟨step, outcome⟩ := linkStep_failCycle searches.valid searches.chain searches.nodup
          searches.loaded searches.ready extends_ onPath
        exact ⟨.single step, outcome⟩
      · rw [if_neg onPath] at result_eq
        obtain ⟨steps, outcome⟩ := visit (searches.parent extends_ loaded onPath)
          (by simpa using enough)
        generalize linkAbove depth (name :: path) parent state = visited at *
        obtain ⟨_ | start, next⟩ := visited
        · rw [result_eq]
          exact proceed steps outcome.1 outcome.2
        · by_cases same : start = parent
          · subst same
            obtain ⟨failed, left⟩ := Outcome.loaded_of_own outcome onPath
            simp only [if_true] at result_eq
            rw [result_eq]
            exact proceed steps (.inr failed) left
          · simp only [same, if_false] at result_eq
            rw [result_eq]
            exact ⟨steps, Outcome.below outcome same⟩
    · rw [Bool.eq_false_iff.2 loaded, Bool.not_false, if_pos rfl] at result_eq
      rw [result_eq]
      have available := searches.ready name List.mem_cons_self parent (.single extends_)
      exact proceed .refl (settled_of_available available loaded) searches.loaded

/-- Linking a class gets it settled, unless it lies on a cycle that begins further down the path. -/
theorem linkSteps_linkAbove (fair : setting.IsFair) {bound : Nat} (depth : Nat) {state : State}
    {name : ClassName} {path : List ClassName} (searches : Searches setting state bound name path)
    (enough : bound < path.length + depth) :
    LinkSteps setting state (linkAbove depth path name state).2 ∧
      (linkAbove depth path name state).2.Outcome name path
        (linkAbove depth path name state).1 := by
  induction depth generalizing state name path with
  | zero =>
    have short := searches.bounded (name :: path) searches.nodup searches.loaded
    rw [List.length_cons] at short
    omega
  | succ depth ih =>
    exact linkSteps_linkParents fair ih (by omega) _ searches (fun _ mem => mem)
      fun _ mem => .inl mem

end State

/-! ### Searching a graph -/

section

variable {α : Type} [Ord α] [Std.TransOrd α] {next : α → List α} {domain : Std.ExtTreeSet α}
variable {node target : α} {pending : List α}

/-- An edge into the domain of a search. -/
def Leads (next : α → List α) (domain : Std.ExtTreeSet α) (node target : α) : Prop :=
  target ∈ next node ∧ domain.contains target = true

/-- A way through a domain avoids a node, or goes on from it for the last time. -/
theorem Leads.avoids [Std.LawfulEqOrd α] {start : α} (inside : domain.contains start = true)
    (leads : Relation.ReflTransGen (Leads next domain) start target) (ne : target ≠ node) :
    ((domain.erase node).contains start = true ∧
        Relation.ReflTransGen (Leads next (domain.erase node)) start target) ∨
      ∃ first ∈ next node, (domain.erase node).contains first = true ∧
        Relation.ReflTransGen (Leads next (domain.erase node)) first target := by
  have erased : ∀ {other}, domain.contains other = true → other ≠ node →
      (domain.erase node).contains other = true := by
    intro other inside ne
    simp [Std.ExtTreeSet.contains_erase, inside, Ne.symm ne]
  induction leads using Relation.ReflTransGen.head_induction_on with
  | refl => exact .inl ⟨erased inside ne, .refl⟩
  | @head start second step _ ih =>
    rcases ih step.2 with ⟨insideSecond, leads⟩ | later
    · by_cases same : start = node
      · subst same
        exact .inr ⟨second, step.1, insideSecond, leads⟩
      · exact .inl ⟨erased inside same, .head ⟨step.1, insideSecond⟩ leads⟩
    · exact .inr later

/-- A search finds every node that can be reached from the pending ones inside its domain. -/
theorem mem_preorder [Std.LawfulEqOrd α] {start : α} (mem : start ∈ pending)
    (inside : domain.contains start = true)
    (leads : Relation.ReflTransGen (Leads next domain) start target) :
    target ∈ preorder next domain pending := by
  have kept : ∀ {domain : Std.ExtTreeSet α} {pending : List α} {start : α}, start ∈ pending →
      domain.contains start = true →
        start ∈ pending.dropWhile fun node => !domain.contains node := by
    intro domain pending start mem inside
    rw [← List.takeWhile_append_dropWhile (p := fun node => !domain.contains node) (l := pending)]
      at mem
    refine (List.mem_append.1 mem).resolve_left fun skipped => ?_
    have outside := List.mem_takeWhile_imp skipped
    rw [inside] at outside
    cases outside
  induction domain, pending using preorder.induct next generalizing start with
  | case1 domain pending none =>
    have left := kept mem inside
    rw [none] at left
    cases left
  | case2 domain pending node rest found ih =>
    rw [preorder_of_dropWhile_eq_cons found]
    by_cases same : target = node
    · exact same ▸ List.mem_cons_self
    · refine List.mem_cons_of_mem _ ?_
      rcases Leads.avoids inside leads same with
        ⟨insideRest, leads⟩ | ⟨first, edge, inside, leads⟩
      · have left := kept mem inside
        rw [found] at left
        have ne : start ≠ node := by
          rintro rfl
          simp [Std.ExtTreeSet.contains_erase] at insideRest
        have pending := (List.mem_cons.1 left).resolve_left ne
        exact ih (List.mem_append_right _ pending) insideRest leads
      · exact ih (List.mem_append_left _ edge) inside leads

/-- Whatever a search finds can be reached from a pending node. -/
theorem exists_of_mem_preorder [Std.LawfulEqOrd α] (mem : target ∈ preorder next domain pending) :
    ∃ start ∈ pending,
      Relation.ReflTransGen (fun node target => target ∈ next node) start target := by
  induction domain, pending using preorder.induct next with
  | case1 domain pending none =>
    rw [preorder_of_dropWhile_eq_nil none] at mem
    cases mem
  | case2 domain pending node rest found ih =>
    have kept : ∀ other ∈ node :: rest, other ∈ pending := fun other mem =>
      (List.dropWhile_sublist _).subset (found ▸ mem)
    rw [preorder_of_dropWhile_eq_cons found] at mem
    rcases List.mem_cons.1 mem with rfl | mem
    · exact ⟨_, kept _ List.mem_cons_self, .refl⟩
    · obtain ⟨start, mem, leads⟩ := ih mem
      rcases List.mem_append.1 mem with edge | mem
      · exact ⟨node, kept _ List.mem_cons_self, .head edge leads⟩
      · exact ⟨start, kept _ (List.mem_cons_of_mem _ mem), leads⟩

end

end ClassLinker
