import LanePadding.Analysis.Fault

/-!
# Simulating nodes

`RunM.visit` infers what the padding lanes of a node hold from what its operands were found to hold,
and makes consumers rely on what they need of their operands.

* `view` is an operand as seen in the padding lanes of a pointwise consumer.  Lanes that replicate
  real data of the operand are dependent, whatever its own padding lanes hold.
* `resolveBranch` is a branch of a selection: the consumer is noted as relying on what it reads.
* A reduction over axes with padding lanes needs the neutral element in them, and any other
  reduction only combines equal padding lanes.
-/

set_option autoImplicit false

namespace LanePadding
namespace RunM

section

variable (w : Workspace) (engine : Engine)

/-! ## Reading operands -/

/-- What the padding lanes of a consumer read from an operand.  Where replicated axes are stored
with several lanes, copies of lane 0 are required in them. -/
def view (consumer : NodeRef) : Operand → RunM (Option PaddingValue)
  | .scalar v => pure (some (.exact v))
  | .symbol _ _ => pure (some .dependent)
  | .node x => do
    let c := w.node consumer
    let n := w.node x
    let fix := n.laneFixAxes (c.replicatedAxes n)
    if !fix.isEmpty then demand w (some consumer) x (.position ⟨x, fix.map Int.ofNat⟩)
    let own := (← get).read x (some consumer)
    let into := c.axesIntoPadding n
    if into.isEmpty then return own
    else if c.paddingReadsPadding n then return some (← need own).meetData
    else
      return some (.ofContent (.dependent (some ⟨x, (into.filterMap id).map Int.ofNat⟩)))

/-- The last setting that a consumer required of a tensor. -/
def lastDemanded? (e : Entry) (consumer : NodeRef) : Option Nat :=
  Entry.lastIndex? (fun s => consumer ∈ s.demandedBy) e.settings

/-- What the padding lanes of a consumer read from a branch of a selection.  The consumer is noted
on the setting it required, or else on what it reads. -/
def resolveBranch (consumer : NodeRef) (operand : Operand) : RunM (Option PaddingValue) := do
  let seen ← view w consumer operand
  match operand with
  | .scalar _ | .symbol _ _ => return seen
  | .node x =>
    let e := (← get).entry x
    match lastDemanded? e consumer with
    | some i =>
      modify fun r => r.modifyEntry x fun e => e.modifySetting i fun s =>
        if s.isTargeted then { s with targets := insertLast s.targets consumer } else s
      return seen
    | none =>
      match e.source? (some consumer) with
      | some i =>
        modify fun r => r.modifyEntry x fun e => e.modifySetting i fun s =>
          s.addDemand (some consumer) false
        return seen
      | none =>
        let _ ← need e.padding
        modify fun r => r.modifyEntry x fun e => e.addTarget (some consumer)
        -- The tensor's own padding value, if that is what was seen, is answered as it is now.
        if ((w.node consumer).axesIntoPadding (w.node x)).isEmpty then
          return ((← get).entry x).padding
        else return seen

/-- What the padding lanes of a selection hold. -/
def selectPadding (n : NodeRef) (cond : PaddingValue) (onTrue onFalse : Operand) :
    RunM (Option PaddingValue) := do
  match cond.content with
  | .exact v =>
    if v.dtype ≠ .bool then throw (.conditionNotBool (w.node n).op.kind cond)
    if v.value.isZero then resolveBranch w n onFalse else resolveBranch w n onTrue
  | content =>
    let seenTrue ← resolveBranch w n onTrue
    let seenFalse ← resolveBranch w n onFalse
    let t ← need seenTrue
    let f ← need seenFalse
    if t.sameValue f then return some t
    else if content = .unconstrained ∨ t.content = .unconstrained ∨ f.content = .unconstrained then
      return some .unconstrained
    else return some .dependent

/-! ## Operators -/

/-- An input holds what it declares, or else what inputs hold by convention. -/
def simulatePlaceholder (n : Node) (declared : Option PaddingValue) :
    Except RunError PaddingValue :=
  match declared with
  | some p => .ok p
  | none =>
    match engine.inputPadding with
    | some p =>
      match p.content with
      | .exact v => RunError.ofScalar do return .exact (← v.convert n.dtype)
      | _ => .ok p
    | none => RunError.ofScalar do return .exact (← Scalar.zero n.dtype)

/-- Two operands at the given positions, as seen by a node. -/
def viewPair (r : NodeRef) (op : OpKind) : RunM (Option PaddingValue × Option PaddingValue) := do
  let n := w.node r
  let lhs ← operand n 0
  let rhs ← operand n 1
  if w.operandDType lhs ≠ w.operandDType rhs then
    throw (.scalar (.mismatch op (w.operandDType lhs) (w.operandDType rhs)))
  let seenLeft ← view w r lhs
  let seenRight ← view w r rhs
  return (seenLeft, seenRight)

/-- The comparison of the first two operands. -/
def simulateCompare (r : NodeRef) (op : OpKind) (mode : CompareMode) : RunM PaddingValue := do
  let (lhs, rhs) ← viewPair w r op
  lift (engine.platform.comparePadding mode (← need lhs) (← need rhs))

/-- The number of lanes that are reduced into one, as a 64-bit integer. -/
def reducedLanes (x : Node) (axes : List Nat) : Int :=
  axes.foldl (fun count i => Text.wrap (count * (x.axes.getD i .unit).size)) 1

/-- A reduction. -/
def simulateReduce (r : NodeRef) (fn : ReduceFn) (axes : List Nat) : RunM PaddingValue := do
  let some x := (← operand (w.node r) 0).node? | throw .notSimulated
  let n := w.node x
  if (n.paddedAxes.filter (· ∈ axes)).isEmpty then
    let p ← need ((← get).read x (some r))
    lift (p.reducePadding (.reduce fn) (reducedLanes n axes))
  else
    let v ← lift (engine.platform.neutral (.reduce fn) n.dtype)
    demand w (some r) x (.constant v)
    return .exact v

/-- What the padding lanes of a node hold. -/
def simulate (r : NodeRef) : RunM PaddingValue := do
  let n := w.node r
  match n.op with
  | .placeholder declared => lift (simulatePlaceholder engine n declared)
  | .constant v => return .exact v
  | .unary fn =>
    let p ← need (← view w r (← operand n 0))
    lift (p.unaryPadding (.unary fn) n.dtype)
  | .cast =>
    let p ← need (← view w r (← operand n 0))
    lift (p.unaryPadding .cast n.dtype)
  | .binary fn =>
    let (lhs, rhs) ← viewPair w r (.binary fn)
    lift (engine.platform.binaryPadding (.binary fn) (← need lhs) (← need rhs))
  | .broadcast => need (← view w r (← operand n 0))
  | .reduce fn axes _ => simulateReduce w engine r fn axes
  | .compare mode => simulateCompare w engine r .compare mode
  | .select =>
    let cond ← need (← view w r (← operand n 0))
    need (← selectPadding w r cond (← operand n 1) (← operand n 2))
  | .cmpSel mode =>
    let cond ← simulateCompare w engine r .cmpSel mode
    need (← selectPadding w r cond (← operand n 2) (← operand n 3))
  | op => throw (.unsupportedOp op.kind r)

/-- Simulates one node, whose inputs have all been simulated already. -/
def visit (r : NodeRef) : RunM Unit := do
  let n := w.node r
  let p ← simulate w engine r
  match p.content with
  | .exact v => if v.dtype ≠ n.dtype then throw (.wrongDType n.op.kind p n.dtype)
  | _ => pure ()
  modify fun s => s.modifyEntry r fun e => { e with padding := some ⟨p.content, some r, []⟩ }

/-! ## Outputs -/

/-- Requires zeros in the padding lanes of an output.  One that other nodes read is stored after
those reads, so its fill is for its own store. -/
def requireOutput (root : NodeRef) : RunM Unit := do
  let n := w.node root
  if n.hasPadding then
    let zero ← lift (RunError.ofScalar (Scalar.zero n.dtype))
    let current ← need ((← get).read root none)
    if !current.isExact zero then
      if 1 < ((← get).entry root).readers then record w (some root) root (.constant zero) true
      else record w none root (.constant zero) false

/-- Requires zeros in the padding lanes of the outputs, if outputs must leave zero-filled. -/
def requireOutputs (roots : List NodeRef) : RunM Unit := do
  if engine.outputPadding then roots.forM (requireOutput w)

end

end RunM
end LanePadding
