import LanePadding.Analysis.Error
import LanePadding.Platform
import LanePadding.Scalar.Eval

/-!
# Operators on padding values

What padding lanes hold after an operator, from what they hold before it.  Each rule looks at the
kinds of content of the operands:

* scalars are computed at compile time;
* lanes computed from real data stay so when they meet their like;
* a scalar that meets real data is lost, except for a sentinel of the platform that decides the
  outcome: `highest ≥ t` holds for every `t`, and `max highest t` is `highest`;
* anything else is unconstrained, except that unconstrained lanes compared with themselves follow
  the reflexive laws.
-/

set_option autoImplicit false

namespace LanePadding

/-- A scalar computation as a step of an analysis. -/
def RunError.ofScalar {α : Type} : Except ScalarError α → Except RunError α
  | .ok a => .ok a
  | .error e => .error (.scalar e)

namespace Platform

/-- The lowest and the highest value of an element type. -/
def sentinels (p : Platform) (d : DType) : Except RunError (Scalar × Scalar) :=
  match p.lowest d with
  | .error reason => .error (.noLowest d reason)
  | .ok low =>
    match p.highest d with
    | .error reason => .error (.noHighest d reason)
    | .ok high => .ok (low, high)

/-! ## Comparisons -/

/-- Compares a scalar with real data: only the sentinels decide the outcome. -/
def compareWithData (p : Platform) (mode : CompareMode) (v : Scalar) :
    Except RunError PaddingValue := do
  let (low, high) ← p.sentinels v.dtype
  if v.equal high && mode == .ge then return .exact (.ofBool true)
  else if v.equal high && mode == .lt then return .exact (.ofBool false)
  else if v.equal low && mode == .le then return .exact (.ofBool true)
  else if v.equal low && mode == .gt then return .exact (.ofBool false)
  else return .unconstrained

/-- What the lanes of a comparison hold. -/
def comparePadding (p : Platform) (mode : CompareMode) (lhs rhs : PaddingValue) :
    Except RunError PaddingValue :=
  if !mode.isKnown then .error (.unknownMode mode.code)
  else
    match lhs.content, rhs.content with
    | .unknown c, r => .error (.unknownCompared mode (.unknown c) r)
    | l, .unknown c => .error (.unknownCompared mode l (.unknown c))
    | .exact v, .exact w => do
      return .exact (.ofBool (← RunError.ofScalar (Scalar.evalCompare mode v w)))
    | .exact v, .dependent _ => p.compareWithData mode v
    | .dependent _, .exact w => p.compareWithData mode.flip w
    | .dependent _, .dependent _ => .ok .dependent
    | .unconstrained, .unconstrained =>
      .ok (if lhs.sameValue rhs then .exact (.ofBool mode.isReflexive) else .unconstrained)
    | _, .unconstrained | .unconstrained, _ => .ok .unconstrained

/-! ## Binary functions -/

/-- Combines a scalar with real data: only a saturating sentinel survives. -/
def binaryWithData (p : Platform) (op : OpKind) (v : Scalar) : Except RunError PaddingValue := do
  let (low, high) ← p.sentinels v.dtype
  if op = .binary .max ∧ v.equal high then return .exact high
  else if op = .binary .min ∧ v.equal low then return .exact low
  else return .unconstrained

/-- What the lanes of a binary function hold. -/
def binaryPadding (p : Platform) (op : OpKind) (lhs rhs : PaddingValue) :
    Except RunError PaddingValue :=
  match lhs.content, rhs.content with
  | .unknown c, r => .error (.unknownContent op (.unknown c) r)
  | l, .unknown c => .error (.unknownContent op l (.unknown c))
  | .exact v, .exact w => do return .exact (← RunError.ofScalar (Scalar.evalBinary op v w))
  | .exact v, .dependent _ => p.binaryWithData op v
  | .dependent _, .exact w =>
    if op = .binary .max ∨ op = .binary .min then p.binaryWithData op w else .ok .unconstrained
  | .dependent _, .dependent _ => .ok .dependent
  | _, .unconstrained | .unconstrained, _ => .ok .unconstrained

/-! ## Reductions -/

/-- The neutral element of a reduction. -/
def neutral (p : Platform) (op : OpKind) (d : DType) : Except RunError Scalar :=
  match op with
  | .reduce .sum => RunError.ofScalar (Scalar.zero d)
  | .reduce .prod => RunError.ofScalar (Scalar.one d)
  | .reduce .max => do return (← p.sentinels d).1
  | .reduce .min => do return (← p.sentinels d).2
  | op => .error (.notReduction op)

end Platform

namespace PaddingValue

/-- What the lanes of a unary function hold. -/
def unaryPadding (op : OpKind) (out : DType) (p : PaddingValue) : Except RunError PaddingValue :=
  match p.content with
  | .exact v => do return .exact (← RunError.ofScalar (Scalar.evalUnary op v out))
  | .dependent _ => .ok .dependent
  | _ => .ok .unconstrained

/-- What lanes hold that are reduced over `count` real lanes each. -/
def reducePadding (op : OpKind) (count : Int) (p : PaddingValue) : Except RunError PaddingValue :=
  match p.content with
  | .exact v => do return .exact (← RunError.ofScalar (Scalar.evalReduceRepeated op v count))
  | .dependent _ => .ok .dependent
  | _ => .ok .unconstrained

/-- What lanes hold some of which hold `p` and the others real data: a scalar does not survive. -/
def meetData (p : PaddingValue) : PaddingValue :=
  match p.content with
  | .dependent _ => .dependent
  | _ => .unconstrained

end PaddingValue
end LanePadding
