import LanePadding.Number.Double

/-!
# Square roots, exponentials, logarithms and integer powers

Every function here returns the *correctly rounded* result: the number of the target format nearest
to the exact real value.

* Square roots and small powers are computed exactly, as integers or as a quotient of integers with
  a sticky last bit, and rounded once.
* `exp`, `log`, `tanh` and large powers are irrational.  They are enclosed between two rationals at
  a working precision; if both ends round to the same number, so does the value in between
  (`Enclosure.settled?`), and otherwise the next precision of `workingBits` is tried.

The enclosures come from the classical series in fixed point: a real `v` is the integer `v · 2^b`
for `b` working bits.  All truncation errors together stay below `slack` units of the last place.

The functions stand for those of a mathematics library in single and in double precision.  Such a
library need not be correctly rounded at every input.  Where it is not, its answer differs from the
one here in the last place, and so does a padding value that is computed with it.  No general result
about analyses depends on this: all that they use of these functions is that the two zeros are not
told apart.
-/

set_option autoImplicit false

namespace LanePadding
namespace Number

/-! ## Integer square roots -/

/-- The largest `r` with `r * r ≤ n`, two binary digits of `n` at a time. -/
def isqrt (n : Nat) : Nat :=
  if n < 2 then n
  else
    let r := 2 * isqrt (n / 4)
    if (r + 1) * (r + 1) ≤ n then r + 1 else r
termination_by n
decreasing_by omega

/-! ## Enclosures -/

/-- The real numbers from `low / denominator` to `high / denominator` quanta. -/
structure Enclosure where
  low : Nat
  high : Nat
  denominator : Nat

/-- The rounded value of every real in the enclosure, if they all round alike.  Rounding is
monotone, so it is enough to look at the two ends. -/
def Enclosure.settled? (f : Format) (negative : Bool) (e : Enclosure) : Option Double :=
  let least := f.round negative e.low e.denominator
  if least = f.round negative e.high e.denominator then some least else none

/-- Working precisions, in bits, in the order they are tried. -/
def workingBits : List Nat := [128, 256, 512, 1024, 2048]

/-- The first settled value; a value that no working precision settles is reported as a NaN. -/
def firstSettled (attempt : Nat → Option Double) : Double :=
  (workingBits.findSome? attempt).getD .nan

/-- A bound on the error of every series below, in units of the last working bit. -/
def slack : Nat := twoPow 16

/-- Multiplying by `2^s` for a signed `s`, as a fraction. -/
def scaleByPower (low high : Nat) (s : Int) : Enclosure :=
  if 0 ≤ s then ⟨low * twoPow s.toNat, high * twoPow s.toNat, 1⟩
  else ⟨low, high, twoPow (-s).toNat⟩

/-! ## Series in fixed point -/

/-- `power/k + power·sq/(k+2) + power·sq²/(k+4) + ⋯` in fixed point, where `unit` stands for one. -/
def oddSeries (unit sq : Nat) : Nat → Nat → Nat → Nat
  | 0, _, _ => 0
  | fuel + 1, power, k =>
    if power = 0 then 0
    else power / k + oddSeries unit sq fuel (power * sq / unit) (k + 2)

/-- The inverse hyperbolic tangent of a fixed-point `z` below one half. -/
def atanhFixed (bits z : Nat) : Nat :=
  oddSeries (twoPow bits) (z * z / twoPow bits) bits z 1

/-- The natural logarithm of two, `2 · atanh (1/3)`, computed with 32 guard bits. -/
def lnTwoFixed (bits : Nat) : Nat :=
  2 * atanhFixed (bits + 32) (twoPow (bits + 32) / 3) / twoPow 32

/-- `term · (1 + r/i + r²/(i·(i+1)) + ⋯)` in fixed point. -/
def expSeries (unit r : Nat) : Nat → Nat → Nat → Nat
  | 0, _, _ => 0
  | fuel + 1, term, i =>
    if term = 0 then 0
    else term + expSeries unit r fuel (term * r / (unit * i)) (i + 1)

/-- The exponential of `±q` quanta as `(m, k)`: it is `m · 2^k` with `m` in fixed point between one
and two, the integer `k` being the whole part of the argument over `ln 2`. -/
def expFixed (bits : Nat) (negative : Bool) (q : Nat) : Nat × Int :=
  let size : Nat := q * twoPow bits / quantaPerUnit
  let x : Int := if negative then -(size : Int) else (size : Int)
  let ln2 : Int := lnTwoFixed bits
  (expSeries (twoPow bits) (x % ln2).toNat bits (twoPow bits) 1, x / ln2)

namespace Double

/-! ## Square root -/

/-- The square root in the format `f`.  The integer root of the magnitude has hundreds of bits more
than any format keeps, so one sticky bit below it decides every rounding. -/
def sqrtIn (f : Format) : Double → Double
  | nan => nan
  | inf s => if s then nan else inf false
  | fin s q h =>
    if q = 0 then fin s q h
    else if s then nan
    else
      let n := q * quantaPerUnit
      let r := isqrt n
      f.round false (2 * r + (if r * r = n then 0 else 1)) 2

/-! ## Exponential, logarithm and hyperbolic tangent -/

/-- `e^x` in the format `f`. -/
def expIn (f : Format) : Double → Double
  | nan => nan
  | inf s => if s then zero else inf false
  | fin s q _ =>
    if 746 * quantaPerUnit ≤ q then (if s then zero else inf false)
    else firstSettled fun bits =>
      let (m, k) := expFixed bits s q
      (scaleByPower (m - slack) (m + slack) (k + 1074 - bits)).settled? f false

/-- The natural logarithm in the format `f`.  The argument is written as `c · 2^e` with `c` between
`2/3` and `4/3`, and `log c = 2 · atanh ((c - 1) / (c + 1))`. -/
def logIn (f : Format) : Double → Double
  | nan => nan
  | inf s => if s then nan else inf false
  | fin s q _ =>
    if q = 0 then inf true
    else if s then nan
    else if q = quantaPerUnit then zero
    else firstSettled fun bits =>
      let b := if 4 * twoPow q.log2 < 3 * q then q.log2 + 1 else q.log2
      let center := twoPow b
      let spread := 2 * atanhFixed bits
        ((if center ≤ q then q - center else center - q) * twoPow bits / (q + center))
      let whole : Int := ((b : Int) - 1074) * (lnTwoFixed bits : Int)
      let total : Int := if center ≤ q then whole + spread else whole - spread
      if total.natAbs ≤ slack then none
      else
        Enclosure.settled? f (total < 0)
          ⟨(total.natAbs - slack) * quantaPerUnit,
            (total.natAbs + slack) * quantaPerUnit, twoPow bits⟩

/-- The hyperbolic tangent in the format `f`, as `(w - 1) / (w + 1)` for `w = e^(2x)`.  An argument
below `2^-30` is its own rounded tangent, and past 64 the tangent rounds to one. -/
def tanhIn (f : Format) : Double → Double
  | nan => nan
  | inf s => f.round s quantaPerUnit 1
  | fin s q _ =>
    if q < twoPow 1044 then f.round s q 1
    else if 64 * quantaPerUnit ≤ q then f.round s quantaPerUnit 1
    else firstSettled fun bits =>
      let (m, k) := expFixed bits false (2 * q)
      let unit := twoPow bits
      let low := (m - slack) * twoPow k.toNat
      let high := (m + slack) * twoPow k.toNat
      let least := f.round s ((low - unit) * quantaPerUnit) (low + unit)
      if least = f.round s ((high - unit) * quantaPerUnit) (high + unit) then some least else none

end Double

/-! ## Integer powers -/

/-- The binary digits of `n` that stand above its lowest one, and how many zeros follow them. -/
def oddPart (n : Nat) : Nat × Nat :=
  if n = 0 then (0, 0)
  else if n % 2 = 1 then (n, 0)
  else
    let (m, t) := oddPart (n / 2)
    (m, t + 1)
termination_by n
decreasing_by omega

/-- A positive real between `low · 2^exponent` and `high · 2^exponent`. -/
structure Approx where
  low : Nat
  high : Nat
  exponent : Int

namespace Approx

/-- Keeps at most `bits` leading bits, rounding outward. -/
def normalize (bits : Nat) (a : Approx) : Approx :=
  let excess := a.high.log2 + 1 - bits
  if excess = 0 then a
  else ⟨a.low / twoPow excess, a.high / twoPow excess + 1, a.exponent + excess⟩

def mul (bits : Nat) (a b : Approx) : Approx :=
  normalize bits ⟨a.low * b.low, a.high * b.high, a.exponent + b.exponent⟩

/-- The `n`-th power by repeated squaring. -/
def pow (bits : Nat) (a : Approx) (n : Nat) : Approx :=
  if n = 0 then ⟨1, 1, 0⟩
  else
    let root := pow bits a (n / 2)
    let square := mul bits root root
    if n % 2 = 1 then mul bits square a else square
termination_by n
decreasing_by omega

end Approx

/-- The power of an enclosed base, or of its inverse, once both ends round alike.  An exponent far
outside the double range is an overflow or an underflow at once. -/
def Approx.settledPower? (negative invert : Bool) (base : Approx) (n bits : Nat) : Option Double :=
  let p := Approx.pow bits base n
  let top : Int := p.exponent + p.high.log2
  if 3000 < top then
    some (if invert then .ofQuanta negative 0 else .inf negative)
  else if top < -3000 then
    some (if invert then .inf negative else .ofQuanta negative 0)
  else if invert then
    -- the inverse of `low · 2^e` is the larger end
    let s := 1074 - p.exponent
    let least := Format.double.round negative (twoPow s.toNat) (p.high * twoPow (-s).toNat)
    if least = Format.double.round negative (twoPow s.toNat) (p.low * twoPow (-s).toNat) then
      some least
    else none
  else
    (scaleByPower p.low p.high (p.exponent + 1074)).settled? .double negative

/-- `x^n`, or `x^-n` if `invert`, for the positive `x` of `q` quanta and a positive `n`.

With `x` between `2^e` and `2^(e+1)`, the power overflows or underflows as soon as `e · n` leaves
the exponent range.  Otherwise the exact power of the odd part is small enough to be written out,
except for a base between one half and two raised to a large `n`, where an enclosure decides. -/
def powMagnitude (negative invert : Bool) (q n : Nat) : Double :=
  let (m, t) := oddPart q
  let e : Int := (q.log2 : Int) - 1074
  let above : Int := if m = 1 then e else e + 1
  if 1076 ≤ e * n then
    (if invert then .ofQuanta negative 0 else .inf negative)
  else if above * n < -1075 then
    (if invert then .inf negative else .ofQuanta negative 0)
  else if m = 1 ∨ n ≤ 1100 then
    let power := if m = 1 then 1 else m.pow n
    let s : Int := (n : Int) * ((t : Int) - 1074)
    if invert then
      let r := 1074 - s
      Format.double.round negative (twoPow r.toNat) (power * twoPow (-r).toNat)
    else
      let r := s + 1074
      Format.double.round negative (power * twoPow r.toNat) (twoPow (-r).toNat)
  else
    firstSettled (Approx.settledPower? negative invert ⟨m, m, (t : Int) - 1074⟩ n)

namespace Double

/-- `x^n` for an integer `n`, correctly rounded to double precision.  Anything to the power zero is
one, and zeros and infinities keep their sign under odd powers. -/
def powInt (x : Double) (n : Int) : Double :=
  if n = 0 then one
  else
    let odd := n % 2 == 1
    match x with
    | nan => nan
    | inf s => if n < 0 then ofQuanta (s && odd) 0 else inf (s && odd)
    | fin s q _ =>
      if q = 0 then (if n < 0 then inf (s && odd) else ofQuanta (s && odd) 0)
      else powMagnitude (s && odd) (n < 0) q n.natAbs

end Double
end Number
end LanePadding
