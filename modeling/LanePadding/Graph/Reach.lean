import LanePadding.Graph.Basic

/-!
# Nodes that roots depend on

`Workspace.reachable` lists the nodes that the roots read, directly or through others, in the order
in which they were made.  Since builders let a node read only earlier nodes of its graph, this order
puts every node after its inputs; a node for which that fails is reported as a cycle.

The nodes are found by a depth-first search.  `preorder` takes each discovered node out of the nodes
not seen yet, so the search ends also on cyclic graphs.
-/

set_option autoImplicit false

namespace LanePadding

/-- Why the nodes that roots depend on cannot be listed. -/
inductive ReachError where
  /-- A root belongs to another graph than the first one. -/
  | foreignRoot (root first : NodeRef)
  /-- A node reads another one that does not come before it. -/
  | cycle (node input : NodeRef)
  deriving DecidableEq, Repr

/-- The wording of a failure; nodes are called as in the workspace. -/
def ReachError.message (w : Workspace) : ReachError → String
  | .foreignRoot root first =>
    "root " ++ w.nameOf root ++ " belongs to a different graph than root " ++ w.nameOf first
  | .cycle node input =>
    "cycle in graph: " ++ w.nameOf node ++ " reads " ++ w.nameOf input ++
      ", which is not produced before it"

/-- The nodes of `unseen` that are found from the pending ones through `next`, each before those
that are found through it. -/
def preorder {α : Type} [DecidableEq α] (next : α → List α) (unseen : List α) :
    (pending : List α) → List α
  | [] => []
  | x :: rest =>
    if x ∈ unseen then x :: preorder next (unseen.erase x) (next x ++ rest)
    else preorder next unseen rest
termination_by pending => (unseen.length, pending.length)
decreasing_by
  · rename_i h
    have := List.length_erase_of_mem h
    have := List.length_pos_of_mem h
    exact Prod.Lex.left _ _ (by omega)
  · exact Prod.Lex.right _ (by simp)

namespace Workspace

/-- All nodes of a graph. -/
def allNodes (w : Workspace) (g : Nat) : List NodeRef :=
  (List.range (w.graph g).nodes.size).map fun i => ⟨g, i⟩

/-- The nodes found from the roots, the last root and the last input being followed first. -/
def discovered (w : Workspace) (g : Nat) (roots : List NodeRef) : List NodeRef :=
  preorder (fun r => (w.node r).inputs.reverse) (w.allNodes g) roots.reverse

/-- The first input of a node that does not come before it. -/
def lateInput? (w : Workspace) (r : NodeRef) : Option NodeRef :=
  (w.node r).inputs.find? fun x => r.index ≤ x.index

/-- The nodes that roots depend on, themselves included, in the order of the graph. -/
def reachable (w : Workspace) (roots : List NodeRef) : Except ReachError (List NodeRef) :=
  match roots with
  | [] => .ok []
  | first :: _ =>
    match roots.find? fun r => r.graph ≠ first.graph with
    | some root => .error (.foreignRoot root first)
    | none =>
      let found := w.discovered first.graph roots
      match found.findSome? fun r => (w.lateInput? r).map fun x => (r, x) with
      | some (r, x) => .error (.cycle r x)
      | none => .ok ((w.allNodes first.graph).filter (· ∈ found))

end Workspace
end LanePadding
