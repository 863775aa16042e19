import LanePadding.Graph.Reach

/-!
# Why an analysis fails

`RunError` says what stops a single step of an analysis, and `AnalysisError` in which part of the
analysis it happened.  Graphs made with the builders keep clear of nearly all of them: most guard
against nodes without operands, values from outside the tables, and platforms without an answer.
-/

set_option autoImplicit false

namespace LanePadding

/-- What stops a step of an analysis. -/
inductive RunError where
  | scalar (cause : ScalarError)
  /-- The operator computes nothing that can be simulated. -/
  | unsupportedOp (op : OpKind) (node : NodeRef)
  /-- A node was inferred to hold a scalar of another element type than its own. -/
  | wrongDType (op : OpKind) (padding : PaddingValue) (dtype : DType)
  /-- A scalar of another element type than the tensor's was to be written into it. -/
  | wrongFill (value : Scalar) (tensor : NodeRef) (dtype : DType)
  /-- No fill is safe for all consumers of a tensor. -/
  | noSafeFill (dtype : DType) (tensor : NodeRef)
  /-- Operands of a binary function with content from outside the table. -/
  | unknownContent (op : OpKind) (left right : Content)
  /-- Operands of a comparison with content from outside the table. -/
  | unknownCompared (mode : CompareMode) (left right : Content)
  | unknownMode (code : Int)
  | conditionNotBool (op : OpKind) (condition : PaddingValue)
  | notReduction (op : OpKind)
  | noLowest (dtype : DType) (reason : String)
  | noHighest (dtype : DType) (reason : String)
  /-- The node has too few operands. -/
  | noOperand (position count : Nat)
  /-- The value of a tensor is needed that was not simulated yet. -/
  | notSimulated
  deriving DecidableEq

/-- The wording of a failure; nodes are called as in the workspace. -/
def RunError.message (w : Workspace) : RunError → String
  | .scalar cause => cause.message
  | .unsupportedOp op x => "unsupported op type " ++ op.name ++ " in node " ++ w.nameOf x
  | .wrongDType op p d =>
    "internal error: " ++ op.name ++ " simulated padding " ++ p.text w.nameOf ++
      " doesn't match dtype " ++ d.name
  | .wrongFill v x d =>
    "internal error: demanding " ++ v.text ++ " (" ++ v.dtype.name ++
      ") on tensor " ++ w.nameOf x ++ " of dtype " ++ d.name
  | .noSafeFill d x =>
    "internal error: no safe padding value of " ++ d.name ++ " for the consumers of " ++ w.nameOf x
  | .unknownContent op l r =>
    "internal error: invalid padding kinds (" ++ l.kindName ++ ", " ++ r.kindName ++ ") for " ++
      op.name
  | .unknownCompared m l r =>
    "internal error: invalid padding kinds (" ++ l.kindName ++ ", " ++ r.kindName ++
      ") for compare " ++ m.symbol
  | .unknownMode code => "internal error: invalid compare mode " ++ Text.integerText code
  | .conditionNotBool op p =>
    op.name ++ ": condition padding " ++ p.text w.nameOf ++ " is not Bool"
  | .notReduction op => op.name ++ " is not a reduction"
  | .noLowest d reason => "querying lowest value of " ++ d.name ++ ": " ++ reason
  | .noHighest d reason => "querying highest value of " ++ d.name ++ ": " ++ reason
  | .noOperand i n =>
    "runtime error: index out of range [" ++ Text.integerText i ++ "] with length " ++
      Text.integerText n
  | .notSimulated => "runtime error: invalid memory address or nil pointer dereference"

/-- Why an analysis fails, and in which of its parts. -/
inductive AnalysisError where
  | noRoots
  /-- The nodes of the graph cannot be listed. -/
  | walking (graph : Nat) (cause : ReachError)
  /-- A node cannot be simulated; it is the one at `position` among `count`. -/
  | simulating (node : NodeRef) (position count : Nat) (cause : RunError)
  /-- The outputs cannot be made zero-filled. -/
  | outputs (cause : RunError)
  deriving DecidableEq

/-- The wording of a failure; nodes are called as in the workspace. -/
def AnalysisError.message (w : Workspace) : AnalysisError → String
  | .noRoots => "padding.Analyze requires at least one root"
  | .walking g cause =>
    "while walking the graph " ++ Text.quote (w.graph g).name ++ ": " ++ cause.message w
  | .simulating x i n cause =>
    "while simulating node " ++ w.nodeText x ++ " (" ++ Text.integerText i ++ " out of " ++
      Text.integerText n ++ "): " ++ cause.message w
  | .outputs cause => "while checking the outputs: " ++ cause.message w

end LanePadding
