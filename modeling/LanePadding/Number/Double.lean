import LanePadding.Number.Rounding

/-!
# Double-precision numbers

`Double` is the type of values that every scalar of the library is carried in: a NaN, two
infinities, and the finite numbers, each a sign and a magnitude in quanta of `2^-1074` that double
precision holds exactly.  Zero has both signs.

Arithmetic is the exact operation on magnitudes followed by a single rounding, which is what
IEEE 754 asks for.  The target format of that rounding is a parameter (`addIn`, `mulIn`, `divIn`),
because operators on narrow tensors are computed in single precision.

## What is here

* `Double`, its constants, and `Format.round`, the one place where a finite result is made.
* the numerical order `Double.lt`, `Double.le` and equality `Double.eq`, in which the two zeros are
  equal and a NaN is not even equal to itself; all three read the integer `Double.key`.
* arithmetic, `max` and `min` (an infinity on the winning side beats a NaN), truncation to an
  integer, and conversions from and to the integers.
-/

set_option autoImplicit false

namespace LanePadding
namespace Number

/-- A double-precision number. -/
inductive Double where
  /-- Not a number. -/
  | nan
  /-- An infinity. -/
  | inf (negative : Bool)
  /-- A finite number: its sign and its magnitude in quanta. -/
  | fin (negative : Bool) (quanta : Nat) (fits : Format.double.Fits quanta)
  deriving DecidableEq

/-- One is this many quanta. -/
def quantaPerUnit : Nat := twoPow 1074

/-- `n / d` quanta rounded to the nearest number of `f`; past the largest finite number of `f`, the
infinity of that sign. -/
def Format.round (f : Format) (negative : Bool) (n d : Nat) : Double :=
  let r := f.nearest n d
  if h : r < twoPow f.limit ∧ Format.double.Fits r then .fin negative r h.2 else .inf negative

/-- The finite number of that sign and magnitude if double precision holds it, else the infinity. -/
def Double.ofQuanta (negative : Bool) (quanta : Nat) : Double :=
  if h : Format.double.Fits quanta then .fin negative quanta h else .inf negative

namespace Double

/-! ## Constants and tests -/

def zero : Double := .fin false 0 (Format.fits_zero _)

def negZero : Double := .fin true 0 (Format.fits_zero _)

/-- The double nearest to an integer. -/
def ofInt (z : Int) : Double :=
  Format.double.round (z < 0) (z.natAbs * quantaPerUnit) 1

def one : Double := ofInt 1

instance : Inhabited Double := ⟨zero⟩

def isNaN : Double → Bool
  | nan => true
  | _ => false

/-- Either zero. -/
def isZero : Double → Bool
  | fin _ q _ => q == 0
  | _ => false

/-- The sign bit; a NaN has none. -/
def isNegative : Double → Bool
  | nan => false
  | inf s => s
  | fin s _ _ => s

/-- The largest finite number of `f`, as a double. -/
def largest (f : Format) (negative : Bool) : Double :=
  ofQuanta negative f.largest

/-! ## Order -/

/-- The signed magnitude in quanta; an infinity lies past every finite magnitude. -/
def key : Double → Int
  | nan => 0
  | inf s => if s then -(twoPow 2098 : Int) else twoPow 2098
  | fin s q _ => if s then -(q : Int) else (q : Int)

/-- Numerical `x < y`, false if either is a NaN. -/
def lt (x y : Double) : Bool :=
  !x.isNaN && !y.isNaN && decide (x.key < y.key)

/-- Numerical `x ≤ y`, false if either is a NaN. -/
def le (x y : Double) : Bool :=
  !x.isNaN && !y.isNaN && decide (x.key ≤ y.key)

/-- Numerical `x = y`: the zeros are equal, and a NaN equals nothing. -/
def eq (x y : Double) : Bool :=
  !x.isNaN && !y.isNaN && decide (x.key = y.key)

/-! ## Sign and rounding -/

def neg : Double → Double
  | nan => nan
  | inf s => inf (!s)
  | fin s q h => fin (!s) q h

def abs : Double → Double
  | nan => nan
  | inf _ => inf false
  | fin _ q h => fin false q h

/-- The nearest number of the format `f`. -/
def roundTo (f : Format) : Double → Double
  | fin s q _ => f.round s q 1
  | x => x

/-- The nearest number of the format `f` toward zero. -/
def truncateTo (f : Format) : Double → Double
  | fin s q _ => ofQuanta s (f.truncate q)
  | x => x

/-- The integral part; a fraction below one in size becomes the zero of its sign. -/
def trunc : Double → Double
  | fin s q _ => ofQuanta s (q / quantaPerUnit * quantaPerUnit)
  | x => x

/-- The integral part as an integer, zero for a NaN or an infinity. -/
def toInt : Double → Int
  | fin s q _ => if s then -((q / quantaPerUnit : Nat) : Int) else ((q / quantaPerUnit : Nat) : Int)
  | _ => 0

/-! ## Arithmetic

Each operation names the format it rounds to. -/

/-- Sum.  An exact zero is negative only if both terms are. -/
def addIn (f : Format) (x y : Double) : Double :=
  match x, y with
  | nan, _ => nan
  | _, nan => nan
  | inf s, inf t => if s = t then inf s else nan
  | inf s, fin _ _ _ => inf s
  | fin _ _ _, inf t => inf t
  | fin s q hq, fin t r hr =>
    let sum := (fin s q hq).key + (fin t r hr).key
    if sum = 0 then f.round (s && t) 0 1 else f.round (sum < 0) sum.natAbs 1

def subIn (f : Format) (x y : Double) : Double := addIn f x y.neg

/-- Product.  Zero times an infinity is a NaN. -/
def mulIn (f : Format) (x y : Double) : Double :=
  match x, y with
  | nan, _ => nan
  | _, nan => nan
  | inf s, inf t => inf (s != t)
  | inf s, fin t r _ => if r = 0 then nan else inf (s != t)
  | fin s q _, inf t => if q = 0 then nan else inf (s != t)
  | fin s q _, fin t r _ => f.round (s != t) (q * r) quantaPerUnit

/-- Quotient.  A nonzero number over zero is an infinity, `0 / 0` and `∞ / ∞` are NaN. -/
def divIn (f : Format) (x y : Double) : Double :=
  match x, y with
  | nan, _ => nan
  | _, nan => nan
  | inf _, inf _ => nan
  | inf s, fin t _ _ => inf (s != t)
  | fin s _ _, inf t => f.round (s != t) 0 1
  | fin s q _, fin t r _ =>
    if r = 0 then (if q = 0 then nan else inf (s != t))
    else f.round (s != t) (q * quantaPerUnit) r

def add : Double → Double → Double := addIn .double

def sub : Double → Double → Double := subIn .double

def mul : Double → Double → Double := mulIn .double

def div : Double → Double → Double := divIn .double

/-- The larger number.  Positive infinity wins over a NaN, a NaN over anything else, and the
positive zero over the negative one. -/
def max (x y : Double) : Double :=
  if x = inf false ∨ y = inf false then inf false
  else if x.isNaN || y.isNaN then nan
  else if x.isZero && y.isZero then (if x.isNegative then y else x)
  else if y.lt x then x else y

/-- The smaller number.  Negative infinity wins over a NaN, a NaN over anything else, and the
negative zero over the positive one. -/
def min (x y : Double) : Double :=
  if x = inf true ∨ y = inf true then inf true
  else if x.isNaN || y.isNaN then nan
  else if x.isZero && y.isZero then (if x.isNegative then x else y)
  else if x.lt y then x else y

end Double
end Number
end LanePadding
