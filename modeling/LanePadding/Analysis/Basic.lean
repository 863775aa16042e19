import LanePadding.Analysis.Simulate

/-!
# Analysing a graph

`Engine.analyze` infers what the padding lanes of all nodes hold that the roots depend on, and which
fills have to be written.  Nodes are simulated in the order of the graph, each followed by the check
that its lanes are safe for its consumers; at last the outputs are made zero-filled.
-/

set_option autoImplicit false

namespace LanePadding

/-- What an analysis found. -/
structure Analysis where
  /-- The graph that was analysed. -/
  graph : Nat
  /-- The nodes that the roots depend on, in the order in which they were simulated. -/
  nodes : List NodeRef
  run : Run

namespace Analysis

/-- The fills to be written, in the order in which they were found to be needed. -/
def actions (a : Analysis) : List Action := a.run.actions

/-- What the padding lanes of a node hold, if it was analysed. -/
def padding? (a : Analysis) (x : NodeRef) : Option PaddingValue :=
  if x.graph = a.graph then (a.run.entry x).padding else none

/-- The fills written into a node. -/
def settings (a : Analysis) (x : NodeRef) : List Setting :=
  if x.graph = a.graph then (a.run.entry x).settings else []

/-- The listing of the actions, a numbered line each. -/
def listing (nameOf : NodeRef → String) (actions : List Action) : String :=
  if actions.isEmpty then "no padding actions\n"
  else
    String.join <| actions.zipIdx.map fun (a, i) =>
      let number := Text.integerText i
      "".pushn ' ' (3 - number.length) ++ number ++ ": " ++ a.text nameOf ++ "\n"

end Analysis

namespace Engine

/-- Simulates a node and makes it safe for its consumers. -/
def step (engine : Engine) (w : Workspace) (n : NodeRef) : RunM Unit := do
  RunM.visit w engine n
  RunM.requireSafe w n

/-- Simulates nodes one after the other; the first one is at position `i` among `count`. -/
def simulateFrom (engine : Engine) (w : Workspace) (count i : Nat) (nodes : List NodeRef)
    (r : Run) : Except AnalysisError Run :=
  match nodes with
  | [] => .ok r
  | n :: rest =>
    match (engine.step w n).on r with
    | (.error cause, _) => .error (.simulating n i count cause)
    | (.ok _, next) => simulateFrom engine w count (i + 1) rest next

/-- Infers the padding of the graph that computes the roots. -/
def analyze (engine : Engine) (w : Workspace) (roots : List NodeRef) :
    Except AnalysisError Analysis := do
  match roots with
  | [] => throw .noRoots
  | first :: _ =>
    match w.reachable roots with
    | .error cause => throw (.walking first.graph cause)
    | .ok nodes =>
      let outputs := distinct roots
      let simulated ← engine.simulateFrom w nodes.length 0 nodes
        (.initial w first.graph nodes outputs)
      match (RunM.requireOutputs w engine outputs).on simulated with
      | (.error cause, _) => throw (.outputs cause)
      | (.ok _, final) => return ⟨first.graph, nodes, final⟩

/-- The fills that the graph computing the roots needs. -/
def actions (engine : Engine) (w : Workspace) (roots : List NodeRef) :
    Except AnalysisError (List Action) :=
  (engine.analyze w roots).map Analysis.actions

end Engine
end LanePadding
