/-!
# Node identities

A node is known by the graph that owns it and by its position there.  Two nodes are the same only if
both agree.
-/

set_option autoImplicit false

namespace LanePadding

/-- The identity of a node. -/
structure NodeRef where
  /-- Which graph of the workspace owns the node. -/
  graph : Nat
  /-- Position of the node in its graph. -/
  index : Nat
  deriving DecidableEq, Repr, Inhabited

/-- The list without repetitions, each element at its first place. -/
def distinct {α : Type} [DecidableEq α] (xs : List α) : List α :=
  xs.foldl (fun seen x => if x ∈ seen then seen else seen ++ [x]) []

/-- The list with `x` at its end, unless it is there already. -/
def insertLast {α : Type} [DecidableEq α] (xs : List α) (x : α) : List α :=
  if x ∈ xs then xs else xs ++ [x]

end LanePadding
