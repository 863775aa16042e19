import LanePadding.Analysis.Run

/-!
# Lanes that must not fault

Some operators trap, or make a NaN or an infinity, on some values: a logarithm needs positive lanes,
a divisor lanes other than zero, a square root lanes that are not negative.  A tensor whose padding
lanes are read by such consumers must hold a value in them that is safe for all of them.

`RunM.requireSafe` runs right after a tensor is simulated and before any of its consumers, so that
an unsafe value is replaced by an unconditional fill that every reader sees.
-/

set_option autoImplicit false

namespace LanePadding

open Number

/-- What an operator needs of the lanes of an operand. -/
inductive FaultRule where
  | positive
  | nonZero
  | nonNegative
  deriving DecidableEq, Repr

namespace FaultRule

/-- Whether a value meets the rule; a NaN meets none. -/
def safe (rule : FaultRule) (v : Double) : Bool :=
  match rule with
  | .positive => Double.zero.lt v
  | .nonZero => !v.isZero && !v.isNaN
  | .nonNegative => Double.zero.le v

/-- A value that meets the rule. -/
def fallback : FaultRule → Double
  | .positive | .nonZero => .one
  | .nonNegative => .zero

/-- The rule of a unary function for its operand. -/
def ofUnary? : UnaryFn → Option FaultRule
  | .log | .rsqrt => some .positive
  | .reciprocal => some .nonZero
  | .sqrt => some .nonNegative
  | _ => none

/-- The rule of a consumer for its operand `x`. -/
def of? (consumer : Node) (x : NodeRef) : Option FaultRule :=
  match consumer.op with
  | .unary fn => ofUnary? fn
  | .binary .div => if consumer.operands[1]? = some (.node x) then some .nonZero else none
  | _ => none

/-- The rule of a consumer for its operand `x`, if the consumer reads padding lanes of `x`. -/
def applying? (w : Workspace) (x consumer : NodeRef) : Option FaultRule :=
  let c := w.node consumer
  if c.readsOwnPadding (w.node x) then of? c x else none

/-- Whether a value meets all rules. -/
def allSafe (rules : List FaultRule) (v : Double) : Bool := rules.all fun rule => rule.safe v

/-- The fallbacks of the rules as scalars, in order, up to and with the first that meets all
rules. -/
def fill? (rules : List FaultRule) (d : DType) : List FaultRule → Except ScalarError (Option Scalar)
  | [] => .ok none
  | rule :: rest => do
    let v ← Scalar.ofDouble d rule.fallback
    if allSafe rules v.value then return some v else fill? rules d rest

end FaultRule

namespace RunM

/-- Makes the padding lanes of a tensor safe for its consumers. -/
def requireSafe (w : Workspace) (x : NodeRef) : RunM Unit := do
  let e := (← get).entry x
  let sensitive := e.consumers.filter fun c => (FaultRule.applying? w x c).isSome
  let rules := e.consumers.filterMap (FaultRule.applying? w x)
  if sensitive.isEmpty then return
  let holds : Bool :=
    match (← need e.padding).content with
    | .exact v => FaultRule.allSafe rules v.value
    | _ => false
  if holds then
    sensitive.forM fun c => modify fun r => r.modifyEntry x fun e => e.addTarget (some c)
  else
    let d := (w.node x).dtype
    match ← lift (RunError.ofScalar (FaultRule.fill? rules d rules)) with
    | none => throw (.noSafeFill d x)
    | some v => sensitive.forM fun c => record w (some c) x (.constant v) false

end RunM
end LanePadding
