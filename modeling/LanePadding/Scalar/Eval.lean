import LanePadding.Scalar.Basic
import LanePadding.Number.Elementary

/-!
# Evaluating operators on scalars

Operators on padding lanes whose content is known are evaluated at compile time with the precision
of the device: a unary function of a narrow float is computed in single precision, everything else
in double precision, and the result is rounded to the element type.
-/

set_option autoImplicit false

namespace LanePadding

open Number

/-! ## On doubles -/

/-- A unary function, each of its operations rounded to `f`.  The functions of a mathematics library
that exponentials, logarithms, square roots and hyperbolic tangents stand for need not be correctly
rounded at every input, as they are here. -/
def UnaryFn.apply (fn : UnaryFn) (f : Format) (v : Double) : Double :=
  match fn with
  | .abs => v.abs
  | .neg => v.neg
  | .exp => v.expIn f
  | .log => v.logIn f
  | .sqrt => v.sqrtIn f
  | .rsqrt => Double.divIn f .one (v.sqrtIn f)
  | .reciprocal => Double.divIn f .one v
  | .relu => v.max .zero
  | .tanh => v.tanhIn f

/-- A binary function in double precision. -/
def BinaryFn.apply (fn : BinaryFn) (x y : Double) : Double :=
  match fn with
  | .add => x.add y
  | .sub => x.sub y
  | .mul => x.mul y
  | .div => x.div y
  | .max => x.max y
  | .min => x.min y

/-- Whether `x` and `y` stand in the relation of the mode.  A NaN only satisfies `≠`. -/
def CompareMode.holds? (mode : CompareMode) (x y : Double) : Option Bool :=
  match mode with
  | .gt => some (y.lt x)
  | .ge => some (y.le x)
  | .lt => some (x.lt y)
  | .le => some (x.le y)
  | .eq => some (x.eq y)
  | .ne => some (!x.eq y)
  | .unknown _ => none

namespace Scalar

/-! ## On scalars -/

/-- A unary function of a scalar, in the scalar's own element type. -/
def applyUnary (fn : UnaryFn) (x : Scalar) : Except ScalarError Scalar :=
  if x.dtype.isNarrowFloat then
    ofDouble x.dtype (fn.apply .single (x.value.roundTo .single))
  else
    ofDouble x.dtype (fn.apply .double x.value)

/-- A unary operator; a conversion goes to the element type `out`. -/
def evalUnary (op : OpKind) (x : Scalar) (out : DType) : Except ScalarError Scalar :=
  match op with
  | .cast => x.convert out
  | .unary fn => applyUnary fn x
  | op => .error (.noUnary op)

/-- A binary function of two scalars of one element type.  Integer division drops the fraction of
the quotient, and narrow floats go through single precision. -/
def applyBinary (fn : BinaryFn) (a b : Scalar) : Except ScalarError Scalar :=
  let exact := fn.apply a.value b.value
  let whole := if fn = .div ∧ a.dtype.isInt then exact.trunc else exact
  ofDouble a.dtype (if a.dtype.isNarrowFloat then whole.roundTo .single else whole)

def evalBinary (op : OpKind) (a b : Scalar) : Except ScalarError Scalar :=
  if a.dtype ≠ b.dtype then .error (.mismatch op a.dtype b.dtype)
  else
    match op with
    | .binary fn => applyBinary fn a b
    | op => .error (.noBinary op)

/-- Whether `a` and `b` stand in the relation of the mode. -/
def evalCompare (mode : CompareMode) (a b : Scalar) : Except ScalarError Bool :=
  if a.dtype ≠ b.dtype then .error (.mismatch .compare a.dtype b.dtype)
  else
    match mode.holds? a.value b.value with
    | some answer => .ok answer
    | none => .error (.invalidMode mode.code)

/-- The reduction of `count` copies of `x`.  The count is first made a double: past `2^53` only its
leading bits matter. -/
def evalReduceRepeated (op : OpKind) (x : Scalar) (count : Int) : Except ScalarError Scalar :=
  match op with
  | .reduce .sum => ofDouble x.dtype (x.value.mul (Double.ofInt count))
  | .reduce .prod => ofDouble x.dtype (x.value.powInt (Double.ofInt count).toInt)
  | .reduce .max | .reduce .min => .ok x
  | op => .error (.noReduction op)

end Scalar
end LanePadding
