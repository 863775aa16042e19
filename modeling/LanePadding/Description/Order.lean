import LanePadding.Description.Basic

/-!
# The order in which definitions are built

`Description.order` puts every definition after those that it reads.  It works in rounds: each round
takes, in the order of declaration, all definitions whose references were taken in earlier rounds.
A definition is therefore taken in the round that is the length of the longest chain of references
below it.  What no round takes lies on a cycle of references or reads something that does.
-/

set_option autoImplicit false

namespace LanePadding

/-- Why definitions cannot be ordered. -/
inductive OrderError where
  /-- The definition at this position has no name. -/
  | unnamed (position : Nat)
  | invalidName (name : String)
  | repeatedName (name : String)
  | unknownReference (node input : String)
  /-- These definitions lie on a cycle or read one that does. -/
  | cycle (graph : String) (names : List String)
  deriving DecidableEq, Repr

def OrderError.message : OrderError → String
  | .unnamed i => "node #" ++ Text.integerText i ++ " has no name"
  | .invalidName name =>
    "invalid node name " ++ Text.quote name ++ ": it can't start with '=', '$' or '#'"
  | .repeatedName name => "node name " ++ Text.quote name ++ " is used more than once"
  | .unknownReference node input =>
    "node " ++ Text.quote node ++ " reads unknown node " ++ Text.quote input
  | .cycle graph names =>
    "sorting graph " ++ Text.quote graph ++ " failed: nodes " ++ Text.quoteList names ++
      " are part of (or depend on) a cycle"

/-- Checks the names of definitions, the first one at position `i`, against each other and those
seen already. -/
def checkNames : Nat → List String → List NodeDef → Except OrderError Unit
  | _, _, [] => .ok ()
  | i, seen, d :: rest =>
    if d.name.isEmpty then .error (.unnamed i)
    else if !d.hasValidName then .error (.invalidName d.name)
    else if d.name ∈ seen then .error (.repeatedName d.name)
    else checkNames (i + 1) (d.name :: seen) rest

/-- The first reference to a name that no definition has, with the definition it stands in. -/
def unknownReference? (names : List String) (defs : List NodeDef) : Option (String × String) :=
  defs.findSome? fun d => (d.references.find? (· ∉ names)).map fun input => (d.name, input)

/-- Those of the positions left whose references are all taken. -/
def readyNow (defs : List NodeDef) (taken : List String) (left : List Nat) : List Nat :=
  left.filter fun i => (defs.getD i .blank).references.all (· ∈ taken)

/-- The positions left after those that are ready. -/
def notReady (defs : List NodeDef) (taken : List String) (left : List Nat) : List Nat :=
  left.filter fun i => !(defs.getD i .blank).references.all (· ∈ taken)

/-- A round that takes something leaves less. -/
theorem length_notReady_lt {defs : List NodeDef} {taken : List String} {left : List Nat}
    (h : readyNow defs taken left ≠ []) : (notReady defs taken left).length < left.length := by
  obtain ⟨i, hi⟩ := List.exists_mem_of_ne_nil _ h
  obtain ⟨hl, hr⟩ := List.mem_filter.1 hi
  refine Nat.lt_of_le_of_ne (List.length_filter_le _ _) fun he => ?_
  have hn := List.length_filter_eq_length_iff.1 he i hl
  rw [hr] at hn
  exact absurd hn (by decide)

/-- Takes definitions in rounds.  Returns the positions taken, round by round, and those that are
left. -/
def takeRounds (defs : List NodeDef) (taken : List String) (left : List Nat) :
    List Nat × List Nat :=
  if _h : readyNow defs taken left = [] then ([], left)
  else
    let ready := readyNow defs taken left
    let names := ready.map fun i => (defs.getD i .blank).name
    let next := takeRounds defs (names ++ taken) (notReady defs taken left)
    (ready ++ next.1, next.2)
termination_by left.length
decreasing_by exact length_notReady_lt _h

namespace Description

/-- The positions of the definitions in the order in which they are built. -/
def order (d : Description) : Except OrderError (List Nat) := do
  checkNames 0 [] d.nodes
  match unknownReference? (d.nodes.map NodeDef.name) d.nodes with
  | some (node, input) => throw (.unknownReference node input)
  | none =>
    let (taken, left) := takeRounds d.nodes [] (List.range d.nodes.length)
    if left.isEmpty then return taken
    else throw (.cycle d.name (left.map fun i => (d.nodes.getD i .blank).name))

end Description
end LanePadding
