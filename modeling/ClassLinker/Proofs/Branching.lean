import Mathlib.Algebra.GroupWithZero.Nat
import Mathlib.Algebra.Order.BigOperators.Group.List
import Mathlib.Algebra.Order.Group.Nat
import Mathlib.Data.List.FinRange

/-!
# Walking trees with a stack

A tree is given by the nodes directly below each node. `Branching.walk` visits all nodes below some
with a stack of nodes to come; `Branching.visited_eq` says that it visits them in the order in which
a recursion along the tree lists them, and `Branching.isPreorder_visited` that this is the order of
their positions.

* `Branching.at?` finds the node at a position, which tells the way down from the root;
* `Branching.IsPreorder` describes the list of all nodes in pre-order, without a walk: positions are
  compared from the root down, and a position comes before those below it.
-/

namespace ClassLinker

/-- The nodes directly below each node, in their order. Together they are smaller than the node. -/
structure Branching (α : Type) where
  below : α → List α
  size : α → Nat
  smaller : ∀ node, ((below node).map size).sum < size node

namespace Branching

variable {α σ : Type} (tree : Branching α)

/-- The stack with nodes put on it one by one. -/
def pushAll (stack nodes : List α) : List α :=
  nodes.foldl (fun stack node => node :: stack) stack

/-- If the last of several nodes is put on the stack first, then the first is on top. -/
@[simp] theorem pushAll_reverse (stack nodes : List α) :
    pushAll stack nodes.reverse = nodes ++ stack := by
  rw [pushAll, List.foldl_reverse]
  induction nodes with
  | nil => rfl
  | cons node nodes ih => exact congrArg (node :: ·) ih

/-- A stack gets smaller if its top node makes place for the nodes below it. -/
theorem sum_below_lt (node : α) (stack : List α) :
    ((tree.below node ++ stack).map tree.size).sum < ((node :: stack).map tree.size).sum := by
  rw [List.map_append, List.sum_append, List.map_cons, List.sum_cons]
  exact Nat.add_lt_add_right (tree.smaller node) _

/-- Takes the top node from the stack, visits it, puts the nodes below it on the stack from the last
to the first, and goes on until the stack is empty. -/
def walk (visit : σ → α → σ) (state : σ) : List α → σ
  | [] => state
  | node :: stack => walk visit (visit state node) (pushAll stack (tree.below node).reverse)
termination_by stack => (stack.map tree.size).sum
decreasing_by
  simpa only [List.unattach_reverse, List.unattach_attach, pushAll_reverse] using
    tree.sum_below_lt node stack

/-- The nodes that a walk from the node visits, in order. -/
def visited (node : α) : List α :=
  tree.walk (fun log node => log ++ [node]) [] [node]

/-- The node at a position: each number chooses one of the nodes directly below. -/
def at? (node : α) : List Nat → Option α
  | [] => some node
  | index :: path => (tree.below node)[index]?.bind fun child => at? child path

/-- The list has the node at each position below the root once, in the order of the positions. -/
def IsPreorder (root : α) (nodes : List α) : Prop :=
  ∃ positions : List (List Nat), positions.Pairwise (· < ·) ∧
    (∀ path, path ∈ positions ↔ (tree.at? root path).isSome = true) ∧
    positions.map (tree.at? root) = nodes.map some

variable {tree}

/-! ### The order of the visits -/

/-- What holds of a node if it does of those directly below holds of all nodes. -/
theorem induct {motive : α → Prop}
    (step : ∀ node, (∀ child ∈ tree.below node, motive child) → motive node) (node : α) :
    motive node := by
  induction size : tree.size node using Nat.strongRecOn generalizing node with
  | _ n ih =>
    refine step node fun child mem => ih (tree.size child) ?_ child rfl
    have le : tree.size child ≤ ((tree.below node).map tree.size).sum :=
      List.le_sum_of_mem (List.mem_map_of_mem mem)
    exact size ▸ Nat.lt_of_le_of_lt le (tree.smaller node)

/-- One turn of the walk. -/
theorem walk_cons (visit : σ → α → σ) (state : σ) (node : α) (stack : List α) :
    tree.walk visit state (node :: stack) =
      tree.walk visit (visit state node) (tree.below node ++ stack) := by
  rw [walk, pushAll_reverse]

/-- A walk is made of the visits to what another walk logs. -/
theorem walk_eq_foldl (visit : σ → α → σ) (state : σ) (log stack : List α) :
    tree.walk visit (log.foldl visit state) stack =
      (tree.walk (fun log node => log ++ [node]) log stack).foldl visit state := by
  match stack with
  | [] => rw [walk, walk]
  | node :: stack =>
    rw [walk_cons, walk_cons, ← walk_eq_foldl visit state (log ++ [node]), List.foldl_append]
    rfl
termination_by (stack.map tree.size).sum
decreasing_by exact tree.sum_below_lt node stack

theorem walk_append (visit : σ → α → σ) (state : σ) (first second : List α) :
    tree.walk visit state (first ++ second) =
      tree.walk visit (tree.walk visit state first) second := by
  match first with
  | [] => rw [walk]; rfl
  | node :: first =>
    rw [List.cons_append, walk_cons, walk_cons, ← List.append_assoc, walk_append]
termination_by (first.map tree.size).sum
decreasing_by exact tree.sum_below_lt node first

/-- A walk visits what is below the nodes on its stack, one node after the other. -/
theorem walk_eq (visit : σ → α → σ) (state : σ) (stack : List α) :
    tree.walk visit state stack = (stack.flatMap tree.visited).foldl visit state := by
  induction stack generalizing state with
  | nil => rw [walk]; rfl
  | cons node stack ih =>
    have top : tree.walk visit state [node] = (tree.visited node).foldl visit state :=
      walk_eq_foldl visit state [] [node]
    rw [← List.singleton_append, walk_append, ih, top, List.flatMap_append, List.foldl_append,
      List.flatMap_singleton]

/-- A node is visited before all that is below it, which is visited from left to right. -/
theorem visited_eq (node : α) :
    tree.visited node = node :: (tree.below node).flatMap tree.visited := by
  have logs (more log : List α) :
      more.foldl (fun log node => log ++ [node]) log = log ++ more := by
    induction more generalizing log with
    | nil => simp
    | cons node more ih => simp [ih]
  rw [visited, walk_cons, walk_eq, logs, List.append_nil]
  rfl

/-- A recursion along the tree lists the nodes in the order of the visits. -/
theorem visited_unique {nodes : α → List α}
    (lists : ∀ node, nodes node = node :: (tree.below node).flatMap nodes) (node : α) :
    tree.visited node = nodes node := by
  induction node using tree.induct with
  | step node ih =>
    rw [visited_eq, lists]
    exact congrArg (node :: ·) (List.flatMap_congr ih)

/-! ### Positions -/

theorem at?_cons {node found : α} {index : Nat} {path : List Nat} :
    tree.at? node (index :: path) = some found ↔
      ∃ child, (tree.below node)[index]? = some child ∧ tree.at? child path = some found :=
  Option.bind_eq_some_iff

theorem flatMap_finRange {β : Type} (xs : List α) (f : α → List β) :
    ((List.finRange xs.length).flatMap fun i => f xs[i]) = xs.flatMap f := by
  conv_rhs => rw [← List.map_get_finRange xs, List.flatMap_map]
  rfl

/-- The nodes of the trees below a root, in turn, are in pre-order behind the root. -/
theorem IsPreorder.cons {root : α} {nodes : α → List α}
    (below : ∀ child ∈ tree.below root, tree.IsPreorder child (nodes child)) :
    tree.IsPreorder root (root :: (tree.below root).flatMap nodes) := by
  choose! positions sorted valid at_positions using below
  have mem (i : Fin (tree.below root).length) : (tree.below root)[i] ∈ tree.below root :=
    List.getElem_mem _
  refine ⟨[] :: (List.finRange (tree.below root).length).flatMap fun i =>
    (positions (tree.below root)[i]).map (i.val :: ·), ?_, ?_, ?_⟩
  · -- Positions below one child compare as before, and those below different ones as the children.
    rw [List.pairwise_cons, List.pairwise_flatMap]
    refine ⟨fun path listed => ?_, fun i _ => ?_, (List.pairwise_lt_finRange _).imp ?_⟩
    · obtain ⟨i, -, listed⟩ := List.mem_flatMap.1 listed
      obtain ⟨rest, -, rfl⟩ := List.mem_map.1 listed
      exact List.nil_lt_cons ..
    · exact List.pairwise_map.2 ((sorted _ (mem i)).imp List.cons_lt_cons_self.2)
    · intro i j less first listed second listed'
      obtain ⟨_, -, rfl⟩ := List.mem_map.1 listed
      obtain ⟨_, -, rfl⟩ := List.mem_map.1 listed'
      exact List.cons_lt_cons_iff.2 (.inl less)
  · rintro (_ | ⟨index, path⟩)
    · exact iff_of_true List.mem_cons_self rfl
    · simp only [List.mem_cons, reduceCtorEq, false_or, List.mem_flatMap, List.mem_finRange,
        true_and, List.mem_map, List.cons.injEq, at?]
      constructor
      · rintro ⟨i, rest, listed, rfl, rfl⟩
        rw [List.getElem?_eq_getElem i.isLt]
        exact (valid _ (mem i) rest).1 listed
      · intro found
        rcases Nat.lt_or_ge index (tree.below root).length with inside | outside
        · rw [List.getElem?_eq_getElem inside] at found
          exact ⟨⟨index, inside⟩, path, (valid _ (mem ⟨index, inside⟩) path).2 found, rfl, rfl⟩
        · rw [List.getElem?_eq_none outside] at found
          cases found
  · have child (i : Fin (tree.below root).length) :
        ((positions (tree.below root)[i]).map (i.val :: ·)).map (tree.at? root) =
          (nodes (tree.below root)[i]).map some := by
      rw [← at_positions _ (mem i), List.map_map]
      refine List.map_congr_left fun path _ => ?_
      simp [at?]
    simp only [List.map_cons, List.map_flatMap, child]
    rw [flatMap_finRange _ fun node => (nodes node).map some]
    rfl

/-- A walk visits every node once, in pre-order. -/
theorem isPreorder_visited (root : α) : tree.IsPreorder root (tree.visited root) := by
  induction root using tree.induct with
  | step root ih =>
    rw [visited_eq]
    exact .cons ih

end Branching

end ClassLinker
