import Mathlib.Data.List.Basic

/-!
# Walks in a graph with labelled edges

The nodes of an arena and the edges between them, given by a function `next`. A walk
follows a path of labels. The rules are those that a trie needs: adding edges keeps
every walk there was (`walk_mono`), and where every edge extends the name of its node by
its label, a walk ends at the node named by the path walked (`name_of_walk`).
-/

namespace NrePlugins

variable {ν α κ : Type}

/-- The node that a path leads to. -/
def walk (next : ν → α → Option ν) : ν → List α → Option ν
  | node, [] => some node
  | node, a :: path => (next node a).bind fun child => walk next child path

variable {next next' : ν → α → Option ν}

theorem walk_cons {node child : ν} {a : α} (h : next node a = some child) (path : List α) :
    walk next node (a :: path) = walk next child path := by
  rw [walk, h, Option.bind_some]

/-- Adding edges keeps the walks there were. -/
theorem walk_mono (hnext : ∀ node a child, next node a = some child → next' node a = some child)
    {node end_ : ν} {path : List α} (h : walk next node path = some end_) :
    walk next' node path = some end_ := by
  induction path generalizing node with
  | nil => exact h
  | cons a path ih =>
    obtain ⟨child, hchild, hrest⟩ := Option.bind_eq_some_iff.mp h
    rw [walk_cons (hnext _ _ _ hchild)]
    exact ih hrest

/-- A walk from a node of a set `inside` that the edges do not leave, where an edge
extends the name of its node by its label. -/
theorem name_of_walk {inside : ν → Prop} (name : ν → κ × List α)
    (hedge : ∀ node a child, inside node → next node a = some child →
      inside child ∧ name child = ((name node).1, (name node).2 ++ [a]))
    {node end_ : ν} {path : List α} (hnode : inside node) (h : walk next node path = some end_) :
    inside end_ ∧ name end_ = ((name node).1, (name node).2 ++ path) := by
  induction path generalizing node with
  | nil =>
    cases h
    rw [List.append_nil]
    exact ⟨hnode, rfl⟩
  | cons a path ih =>
    obtain ⟨child, hchild, hrest⟩ := Option.bind_eq_some_iff.mp h
    obtain ⟨hinside, hname⟩ := hedge _ _ _ hnode hchild
    obtain ⟨hend, hended⟩ := ih hinside hrest
    refine ⟨hend, ?_⟩
    rw [hended, hname, List.append_assoc]
    rfl

end NrePlugins
