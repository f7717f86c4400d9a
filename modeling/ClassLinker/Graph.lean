import Std.Data.ExtTreeSet

/-!
# Searching a graph

`preorder` lists what can be reached from some nodes of a finite graph, each node once and before
the nodes that are found through it. Nodes outside the given domain are passed over. Every step
takes a node out of the domain, so the search ends whatever the edges.
-/

namespace ClassLinker

variable {α : Type} [Ord α] [Std.TransOrd α]

/-- A set loses size with each of its members. -/
theorem size_erase_lt {set : Std.ExtTreeSet α} {node : α} (h : set.contains node = true) :
    (set.erase node).size < set.size := by
  have nonempty : set.size ≠ 0 := fun empty => by
    rw [Std.ExtTreeSet.eq_empty_iff_size_eq_zero.2 empty] at h
    simp at h
  rw [Std.ExtTreeSet.size_erase, if_pos h]
  omega

/-- What is left of a list after dropping what lies outside a set begins inside. -/
theorem contains_of_dropWhile_eq_cons {set : Std.ExtTreeSet α} {nodes rest : List α} {node : α}
    (h : nodes.dropWhile (fun node => !set.contains node) = node :: rest) :
    set.contains node = true := by
  have inside := List.head?_dropWhile_not (fun node => !set.contains node) nodes
  rw [h] at inside
  simpa using inside

/-- The nodes of a domain that can be reached from the pending ones, in the order in which a
depth-first search meets them. -/
def preorder (next : α → List α) (domain : Std.ExtTreeSet α) (pending : List α) : List α :=
  match _h : pending.dropWhile fun node => !domain.contains node with
  | [] => []
  | node :: rest => node :: preorder next (domain.erase node) (next node ++ rest)
termination_by domain.size
decreasing_by exact size_erase_lt (contains_of_dropWhile_eq_cons _h)

variable {next : α → List α} {domain : Std.ExtTreeSet α} {pending rest : List α} {node : α}

theorem preorder_of_dropWhile_eq_nil
    (h : pending.dropWhile (fun node => !domain.contains node) = []) :
    preorder next domain pending = [] := by
  rw [preorder]
  split
  · rfl
  · rename_i h'
    rw [h] at h'
    cases h'

theorem preorder_of_dropWhile_eq_cons
    (h : pending.dropWhile (fun node => !domain.contains node) = node :: rest) :
    preorder next domain pending =
      node :: preorder next (domain.erase node) (next node ++ rest) := by
  rw [preorder]
  split
  · rename_i h'
    rw [h] at h'
    cases h'
  · rename_i h'
    obtain ⟨rfl, rfl⟩ := List.cons.inj (h.symm.trans h')
    rfl

end ClassLinker
