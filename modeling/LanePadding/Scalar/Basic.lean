import LanePadding.DType
import LanePadding.Op
import LanePadding.Number.Decimal
import LanePadding.Text.Integer

/-!
# Scalars

A scalar is a value of an element type, known at compile time.  It is carried as a double and is
normally one that the element type can store; `DType.round` brings any double there, the way the
device would.

* Floats are rounded to nearest, half precision through single precision, and the 16-bit format with
  the range of single precision by dropping the low bits of the single-precision number.
* Integers lose their fraction and saturate at the ends of their range, and a NaN becomes zero.
  The ends of the 64-bit types are themselves the doubles nearest to them.
* Booleans become 0 or 1.
-/

set_option autoImplicit false

namespace LanePadding

open Number

/-! ## Failures -/

/-- Why a scalar cannot be made or computed. -/
inductive ScalarError where
  /-- Scalars of this element type cannot be computed with. -/
  | unsupported (dtype : DType)
  /-- A machine value of a type that no scalar has. -/
  | unsupportedType (typeName : String)
  | noLowest (dtype : DType)
  | noHighest (dtype : DType)
  | unsupportedLiteral (dtype : DType) (text : String)
  /-- A literal that is no number, with the text that was read as one. -/
  | invalidLiteral (text : String) (dtype : DType) (numeral : String) (cause : NumeralError)
  /-- The operator is not a unary one that can be evaluated. -/
  | noUnary (op : OpKind)
  /-- The operator is not a binary one that can be evaluated. -/
  | noBinary (op : OpKind)
  /-- The operator is not a reduction. -/
  | noReduction (op : OpKind)
  | mismatch (op : OpKind) (left right : DType)
  | invalidMode (code : Int)
  deriving DecidableEq

namespace ScalarError

def message : ScalarError → String
  | .unsupported d => "unsupported dtype " ++ d.name ++ " for padding scalar"
  | .unsupportedType t => "unsupported scalar type " ++ t
  | .noLowest d => "dtype " ++ d.name ++ " has no lowest value"
  | .noHighest d => "dtype " ++ d.name ++ " has no highest value"
  | .unsupportedLiteral d text =>
    "unsupported dtype " ++ d.name ++ " for literal " ++ Text.quote text
  | .invalidLiteral text d numeral cause =>
    "invalid literal " ++ Text.quote text ++ " for dtype " ++ d.name ++
      ": strconv.ParseFloat: parsing " ++ Text.quote numeral ++ ": " ++
      (match cause with
        | .malformed => "invalid syntax"
        | .outOfRange => "value out of range")
  | .noUnary op => "no compile-time evaluation for unary op " ++ op.name
  | .noBinary op => "no compile-time evaluation for binary op " ++ op.name
  | .noReduction op => "no compile-time evaluation for reduction " ++ op.name
  | .mismatch op l r => op.name ++ ": dtype mismatch " ++ l.name ++ " vs " ++ r.name
  | .invalidMode code => "invalid compare mode " ++ Text.integerText code

end ScalarError

/-! ## Limits and rounding -/

namespace DType

/-- The lowest finite value. -/
def lowest : DType → Except ScalarError Double
  | .float64 => .ok (Double.largest .double true)
  | .float32 => .ok (Double.largest .single true)
  | .float16 => .ok (Double.largest .half true)
  | .bfloat16 => .ok (Double.largest .brain true)
  | d =>
    match d.intRange? with
    | some (low, _) => .ok (Double.ofInt low)
    | none => .error (.noLowest d)

/-- The highest finite value.  Those of the 64-bit integers are the doubles nearest to them. -/
def highest : DType → Except ScalarError Double
  | .float64 => .ok (Double.largest .double false)
  | .float32 => .ok (Double.largest .single false)
  | .float16 => .ok (Double.largest .half false)
  | .bfloat16 => .ok (Double.largest .brain false)
  | d =>
    match d.intRange? with
    | some (_, high) => .ok (Double.ofInt high)
    | none => .error (.noHighest d)

/-- An integral double clamped to the range from `low` to `high`. -/
def clamp (low high : Int) (v : Double) : Double :=
  Double.min (Double.max v (Double.ofInt low)) (Double.ofInt high)

/-- The value of the element type that stands for `v`; a type that cannot be computed with keeps
every value. -/
def round (d : DType) (v : Double) : Double :=
  match d with
  | .float64 => v
  | .float32 => v.roundTo .single
  | .float16 => (v.roundTo .single).roundTo .half
  | .bfloat16 => (v.roundTo .single).truncateTo .brain
  | .bool => if v.isNaN || v.isZero then .zero else .one
  | d =>
    match d.intRange? with
    | some (low, high) => if v.isNaN then .zero else clamp low high v.trunc
    | none => v

/-- The text of a value of this element type: a word for a boolean, plain decimal for an integer
below `2^53` in size, and otherwise the shortest digits that read back. -/
def valueText (d : DType) (v : Double) : String :=
  if d = .bool then (if v.isZero then "false" else "true")
  else if d.isInt && v.abs.lt (Double.ofInt 9007199254740992) then Text.integerText v.toInt
  else v.toText

end DType

/-! ## The type -/

/-- A compile-time value of an element type. -/
structure Scalar where
  dtype : DType
  value : Double
  deriving DecidableEq

namespace Scalar

/-- The scalar of no element type, which stands where there is none. -/
def absent : Scalar := ⟨.invalid, .zero⟩

instance : Inhabited Scalar := ⟨absent⟩

/-- The scalar of the element type that stands for `v`. -/
def ofDouble (d : DType) (v : Double) : Except ScalarError Scalar :=
  if d.isSupported then .ok ⟨d, d.round v⟩ else .error (.unsupported d)

def zero (d : DType) : Except ScalarError Scalar := ofDouble d .zero

def one (d : DType) : Except ScalarError Scalar := ofDouble d .one

/-- The boolean scalar of a truth value. -/
def ofBool (b : Bool) : Scalar := ⟨.bool, if b then .one else .zero⟩

/-- Equality of element types and values.  A NaN equals a NaN, and the two zeros are equal. -/
def equal (a b : Scalar) : Bool :=
  a.dtype == b.dtype && ((a.value.isNaN && b.value.isNaN) || a.value.eq b.value)

def isZero (s : Scalar) : Bool := s.value.isZero

/-- The scalar converted to another element type. -/
def convert (s : Scalar) (d : DType) : Except ScalarError Scalar := ofDouble d s.value

def text (s : Scalar) : String := s.dtype.valueText s.value

end Scalar
end LanePadding
