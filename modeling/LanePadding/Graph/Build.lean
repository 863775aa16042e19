import LanePadding.Graph.Basic

/-!
# Building graphs

Builders add one node to a graph after checking their arguments.  They run in `Build`, which keeps
the workspace also when a builder fails.  Almost every builder checks first and then adds the node;
only a placeholder with a declared padding value is added before the value is checked.

Pointwise operators align the axes of their operands to the right, and an axis of logical extent one
is replicated to the others' axis: `Axis.join` combines two axes at one position, and
`broadcastShape` all operands.
-/

set_option autoImplicit false

namespace LanePadding

/-! ## Failures -/

/-- Why a node cannot be built. -/
inductive BuildError where
  | axis (cause : AxisError)
  /-- An operand that is no node, scalar or symbol. -/
  | noOperand
  /-- A symbol needs a name. -/
  | unnamedSymbol
  | unsupportedDType (op : OpKind) (dtype : DType)
  /-- The operands have different element types. -/
  | mismatch (op : OpKind) (left : DType) (first : Operand) (right : DType) (other : Operand)
  /-- The axis of a node at a position is neither the target nor a single lane. -/
  | notBroadcastable (op : OpKind) (node : NodeRef) (position : Nat) (axis target : Axis)
  /-- An operand of another graph. -/
  | foreignOperand (op : OpKind) (node : NodeRef)
  /-- No operand is a node, so that the graph is unknown. -/
  | noNodeOperand (op : OpKind)
  /-- A placeholder was to be declared with a padding value, but there is none. -/
  | noPadding (name : String)
  | paddingMismatch (name : String) (padding : PaddingValue) (dtype : DType)
  | notUnary (op : OpKind)
  | notBinary (op : OpKind)
  | notReduction (op : OpKind)
  | smallTargetRank (node : NodeRef) (target rank : Nat)
  | badTargetAxis (node : NodeRef) (position : Nat) (axis target : Axis)
  | axisOutOfRange (op : OpKind) (node : NodeRef) (position : Int) (rank : Nat)
  | invalidMode (op : OpKind) (code : Int)
  | conditionNotBool (node : NodeRef) (dtype : DType)
  deriving DecidableEq

namespace BuildError

/-- The wording of a failure; nodes are called as in the workspace. -/
def message (w : Workspace) : BuildError → String
  | .axis cause => cause.message
  | .noOperand => "padding.NodeOperand(nil)"
  | .unnamedSymbol => "padding.SymbolOperand requires a name"
  | .unsupportedDType op d => op.name ++ ": unsupported dtype " ++ d.name
  | .mismatch op l first r other =>
    op.name ++ ": dtype mismatch " ++ l.name ++ " (" ++ w.operandText first ++ ") vs " ++ r.name ++
      " (" ++ w.operandText other ++ "), use an explicit Cast"
  | .notBroadcastable op x i a t =>
    op.name ++ ": operand " ++ w.nameOf x ++ " axis #" ++ Text.integerText i ++ " (" ++ a.text ++
      ") is not broadcastable to " ++ t.text
  | .foreignOperand op x => op.name ++ ": operand " ++ w.nameOf x ++ " belongs to a different graph"
  | .noNodeOperand op => op.name ++ ": requires at least one node operand"
  | .noPadding name => "PlaceholderWithPadding(" ++ Text.quote name ++ "): padding value is nil"
  | .paddingMismatch name p d =>
    "PlaceholderWithPadding(" ++ Text.quote name ++ "): padding value " ++ p.text w.nameOf ++
      " doesn't match dtype " ++ d.name
  | .notUnary op => "UnaryOp(" ++ op.name ++ "): not a unary pointwise op"
  | .notBinary op => "BinaryOp(" ++ op.name ++ "): not a binary pointwise op"
  | .notReduction op => "Reduce(" ++ op.name ++ "): not a reduction"
  | .smallTargetRank x target rank =>
    "Broadcast(" ++ w.nameOf x ++ "): target rank " ++ Text.integerText target ++
      " smaller than operand rank " ++ Text.integerText rank
  | .badTargetAxis x i a t =>
    "Broadcast(" ++ w.nameOf x ++ "): axis #" ++ Text.integerText i ++ " (" ++ a.text ++
      ") can't be broadcast to " ++ t.text
  | .axisOutOfRange op x i rank =>
    op.name ++ "(" ++ w.nameOf x ++ "): axis " ++ Text.integerText i ++ " out of range for rank " ++
      Text.integerText rank
  | .invalidMode op code => op.name ++ ": invalid mode " ++ Text.integerText code
  | .conditionNotBool x d =>
    "Select: condition " ++ w.nameOf x ++ " must be Bool, got " ++ d.name

end BuildError

/-- A computation that builds nodes.  What it added before failing stays. -/
abbrev Build (α : Type) : Type := ExceptT BuildError (StateM Workspace) α

/-- Runs a builder on a workspace. -/
def Build.on {α : Type} (b : Build α) (w : Workspace) : Except BuildError α × Workspace :=
  (ExceptT.run b).run w

/-! ## Operands -/

/-- The operand that reads a node. -/
def Operand.ofNode : Option NodeRef → Except BuildError Operand
  | some r => .ok (.node r)
  | none => .error .noOperand

/-- The operand of a scalar known only at run time. -/
def Operand.ofSymbol (name : String) (d : DType) : Except BuildError Operand :=
  if name.isEmpty then .error .unnamedSymbol else .ok (.symbol name d)

/-! ## Shapes -/

/-- The axes with single lanes in front, up to the given rank. -/
def expandToRank (axes : List Axis) (rank : Nat) : List Axis :=
  List.replicate (rank - axes.length) .unit ++ axes

/-- The common axis of two operands at one position: equal axes agree, two single-lane axes take the
larger block, and a single-lane axis gives way to the other one. -/
def Axis.join (out axis : Axis) : Option Axis :=
  if axis = out then some out
  else if axis.extent = 1 ∧ out.extent = 1 then some ⟨max out.size axis.size, out.extent⟩
  else if axis.extent = 1 then some out
  else if out.extent = 1 then some axis
  else none

namespace Workspace

/-- Joins the axes of one more operand to the axes so far, from the position `i` on. -/
def joinAxes (op : OpKind) (x : NodeRef) : Nat → List Axis → List Axis →
    Except BuildError (List Axis)
  | i, out :: outs, axis :: axes =>
    match out.join axis with
    | none => .error (.notBroadcastable op x i axis out)
    | some joined => do return joined :: (← joinAxes op x (i + 1) outs axes)
  | _, outs, _ => .ok outs

/-- The largest rank among the node operands. -/
def maxRank (w : Workspace) (operands : List Operand) : Nat :=
  (operands.filterMap Operand.node?).foldl (fun r x => max r (w.node x).rank) 0

/-- The axes of a pointwise operator over these operands. -/
def broadcastShape (w : Workspace) (op : OpKind) (operands : List Operand) :
    Except BuildError (List Axis) :=
  let rank := w.maxRank operands
  let expanded (x : NodeRef) : List Axis := expandToRank (w.node x).axes rank
  match operands.filterMap Operand.node? with
  | [] => .ok []
  | x :: xs => xs.foldlM (fun out y => joinAxes op y 0 out (expanded y)) (expanded x)

/-- The common element type of operands; there is no implicit conversion. -/
def commonDType (w : Workspace) (op : OpKind) (first : Operand) (rest : List Operand) :
    Except BuildError DType :=
  let d := w.operandDType first
  match rest.find? fun x => w.operandDType x ≠ d with
  | some x => .error (.mismatch op d first (w.operandDType x) x)
  | none => .ok d

/-- The graph that the node operands belong to, if it is one and the same, beginning with the graph
known already. -/
def owner (op : OpKind) : Option Nat → List NodeRef → Except BuildError Nat
  | some g, [] => .ok g
  | none, [] => .error (.noNodeOperand op)
  | none, x :: xs => owner op (some x.graph) xs
  | some g, x :: xs => if x.graph = g then owner op (some g) xs else .error (.foreignOperand op x)

end Workspace

namespace Build

/-- Adds a node to the graph of its operands, or to `g` if that is given. -/
def add (g : Option Nat) (op : Op) (dtype : DType) (axes : List Axis) (operands : List Operand) :
    Build NodeRef := do
  let w ← get
  let owner ← Workspace.owner op.kind g (operands.filterMap Operand.node?)
  match axes.find? fun a => ¬a.Valid with
  | some a => throw (.axis (.badExtents a.size a.extent))
  | none =>
    set (w.push owner ⟨"", op, operands, dtype, axes⟩)
    return ⟨owner, (w.graph owner).nodes.size⟩

/-- Names a node. -/
def withName (r : NodeRef) (label : String) : Build NodeRef := do
  modify fun w => w.withName r label
  return r

def checkDType (op : OpKind) (d : DType) : Build Unit :=
  if d.isSupported then pure () else throw (.unsupportedDType op d)

/-! ## Leaves -/

/-- An input of the graph `g`, whose padding lanes follow the convention for inputs. -/
def placeholder (g : Nat) (name : String) (d : DType) (axes : List Axis) : Build NodeRef := do
  checkDType .placeholder d
  withName (← add (some g) (.placeholder none) d axes []) name

/-- An input of the graph `g` whose padding lanes are known to hold a value. -/
def placeholderWithPadding (g : Nat) (name : String) (padding : Option PaddingValue) (d : DType)
    (axes : List Axis) : Build NodeRef := do
  let r ← placeholder g name d axes
  match padding with
  | none => throw (.noPadding name)
  | some p =>
    match p.content with
    | .exact v =>
      if v.dtype ≠ d then
        throw (.paddingMismatch name p d)
    | _ => pure ()
    modify fun w => w.modifyNode r fun n => { n with op := .placeholder (some p.clone) }
    return r

/-- A tensor of the graph `g` that holds one value in all its lanes. -/
def constant (g : Nat) (value : Scalar) (axes : List Axis) : Build NodeRef := do
  checkDType .constant value.dtype
  add (some g) (.constant value) value.dtype axes []

/-- A node of any operator in the graph `g`, without operands and unchecked. -/
def bare (g : Nat) (op : OpKind) (d : DType) (axes : List Axis) : Build NodeRef :=
  add (some g) (.ofKind op) d axes []

/-! ## Pointwise operators -/

/-- A unary function of a node.  Conversions have a builder of their own. -/
def unary (op : OpKind) (x : NodeRef) : Build NodeRef := do
  match op with
  | .unary fn =>
    let n := (← get).node x
    add none (.unary fn) n.dtype n.axes [.node x]
  | op => throw (.notUnary op)

/-- A node converted to another element type. -/
def cast (x : NodeRef) (d : DType) : Build NodeRef := do
  checkDType .cast d
  add none .cast d ((← get).node x).axes [.node x]

/-- A binary function; at least one operand must be a node. -/
def binary (op : OpKind) (lhs rhs : Operand) : Build NodeRef := do
  match op with
  | .binary fn =>
    let w ← get
    let d ← w.commonDType op lhs [rhs]
    let axes ← w.broadcastShape op [lhs, rhs]
    add none (.binary fn) d axes [lhs, rhs]
  | op => throw (.notBinary op)

/-- The first position at which an axis can be replicated to no other, with both axes. -/
def badAxis? : Nat → List Axis → List Axis → Option (Nat × Axis × Axis)
  | i, a :: as, t :: ts => if a ≠ t ∧ a.extent ≠ 1 then some (i, a, t) else badAxis? (i + 1) as ts
  | _, _, _ => none

/-- A node with its single-lane axes replicated into the given axes. -/
def broadcast (x : NodeRef) (axes : List Axis) : Build NodeRef := do
  let w ← get
  let n := w.node x
  if axes.length < n.rank then
    throw (.smallTargetRank x axes.length n.rank)
  match badAxis? 0 (expandToRank n.axes axes.length) axes with
  | some (i, a, t) => throw (.badTargetAxis x i a t)
  | none => add none .broadcast n.dtype axes [.node x]

/-- The comparison of two operands, a boolean tensor. -/
def compare (lhs rhs : Operand) (mode : CompareMode) : Build NodeRef := do
  if !mode.isKnown then
    throw (.invalidMode .compare mode.code)
  let w ← get
  let _ ← w.commonDType .compare lhs [rhs]
  let axes ← w.broadcastShape .compare [lhs, rhs]
  add none (.compare mode) .bool axes [lhs, rhs]

/-- `onTrue` where the condition holds and `onFalse` elsewhere. -/
def select (cond : NodeRef) (onTrue onFalse : Operand) : Build NodeRef := do
  let w ← get
  let c := w.node cond
  if c.dtype ≠ .bool then
    throw (.conditionNotBool cond c.dtype)
  let d ← w.commonDType .select onTrue [onFalse]
  let operands := [.node cond, onTrue, onFalse]
  let axes ← w.broadcastShape .select operands
  add none .select d axes operands

/-- `onTrue` where the comparison holds and `onFalse` elsewhere, in one operator. -/
def cmpSel (lhs rhs : Operand) (mode : CompareMode) (onTrue onFalse : Operand) : Build NodeRef := do
  if !mode.isKnown then
    throw (.invalidMode .cmpSel mode.code)
  let w ← get
  let _ ← w.commonDType .cmpSel lhs [rhs]
  let d ← w.commonDType .cmpSel onTrue [onFalse]
  let operands := [lhs, rhs, onTrue, onFalse]
  let axes ← w.broadcastShape .cmpSel operands
  add none (.cmpSel mode) d axes operands

/-! ## Reductions -/

/-- A position among `rank` axes, counted from the end if negative. -/
def axisPosition? (rank : Nat) (axis : Int) : Option Nat :=
  let i := if axis < 0 then axis + rank else axis
  if 0 ≤ i ∧ i < rank then some i.toNat else none

/-- The positions of listed axes, added to the known ones, each at its first place.  An axis outside
the rank is returned as the error. -/
def listedAxes (rank : Nat) (known : List Nat) : (axes : List Int) → Except Int (List Nat)
  | [] => .ok known
  | a :: axes =>
    match axisPosition? rank a with
    | none => .error a
    | some i => listedAxes rank (insertLast known i) axes

/-- A position put before the first one that is not less. -/
def insertAxis (i : Nat) : List Nat → List Nat
  | [] => [i]
  | j :: axes => if i ≤ j then i :: j :: axes else j :: insertAxis i axes

/-- The positions in increasing order. -/
def sortAxes (axes : List Nat) : List Nat := axes.foldr insertAxis []

/-- The reduced axes in increasing order and without repetition, all of them if none is listed. -/
def reducedAxes (rank : Nat) (axes : List Int) : Except Int (List Nat) :=
  (listedAxes rank (if axes.isEmpty then List.range rank else []) axes).map sortAxes

/-- The axes that a reduction leaves. -/
def axesAfterReduce (axes : List Axis) (reduced : List Nat) (keepDims : Bool) : List Axis :=
  (List.range axes.length).filterMap fun i =>
    if i ∉ reduced then axes[i]?
    else if keepDims then some .unit
    else none

/-- A reduction of a node over axes, all of them if none is listed. -/
def reduce (op : OpKind) (x : NodeRef) (keepDims : Bool) (axes : List Int) : Build NodeRef := do
  match op with
  | .reduce fn =>
    let w ← get
    let n := w.node x
    match reducedAxes n.rank axes with
    | .error a => throw (.axisOutOfRange op x a n.rank)
    | .ok reduced =>
      add none (.reduce fn reduced keepDims) n.dtype (axesAfterReduce n.axes reduced keepDims)
        [.node x]
  | op => throw (.notReduction op)

end Build
end LanePadding
