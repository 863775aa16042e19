/-!
# Rounding magnitudes to a binary format

Magnitudes are counted in *quanta* of `2^-1074`, the spacing of the finest double-precision
numbers, so that every finite magnitude of every format below is a natural number and all rounding
is integer arithmetic.

## What is here

* `divNearest n d` — the natural number nearest to `n / d`, a tie going to the even neighbour.
* `Format` — a binary floating-point format: how many significant bits it keeps, how fine its finest
  spacing is, and where its finite range ends.  `Format.Fits f n` says that `f` holds `n` exactly.
* `Format.nearest f n d` — the magnitude of `f` nearest to `n / d` quanta, before the range check,
  and `Format.truncate f n`, the largest magnitude of `f` that does not exceed `n`.
* `Format.fits_nearest` — rounding lands in the format whenever it stays in range.
-/

set_option autoImplicit false

namespace LanePadding
namespace Number

/-! ## Powers of two -/

/-- The power `2^n`. -/
abbrev twoPow (n : Nat) : Nat := Nat.pow 2 n

/-! ## Nearest quotients -/

/-- The natural number nearest to `n / d`.  A quotient half way between two numbers goes to the even
one of them. -/
def divNearest (n d : Nat) : Nat :=
  if 2 * (n % d) < d then n / d
  else if d < 2 * (n % d) then n / d + 1
  else if n / d % 2 = 0 then n / d
  else n / d + 1

theorem div_le_divNearest (n d : Nat) : n / d ≤ divNearest n d := by
  unfold divNearest; split <;> (try split) <;> (try split) <;> omega

theorem divNearest_le (n d : Nat) : divNearest n d ≤ n / d + 1 := by
  unfold divNearest; split <;> (try split) <;> (try split) <;> omega

/-- A quotient without remainder is its own nearest number. -/
theorem divNearest_mul (q d : Nat) (h : 0 < d) : divNearest (q * d) d = q := by
  unfold divNearest
  rw [Nat.mul_mod_left, Nat.mul_div_cancel _ h]
  simp [h]

/-! ## Formats -/

/-- A binary floating-point format, with its exponents counted in quanta. -/
structure Format where
  /-- Significant bits. -/
  precision : Nat
  /-- The smallest positive magnitude, and the finest spacing, is `2^finest` quanta. -/
  finest : Nat
  /-- Every finite magnitude is below `2^limit` quanta. -/
  limit : Nat
  deriving DecidableEq, Repr

namespace Format

/-- Double precision: 53 bits, spacing down to one quantum. -/
def double : Format := ⟨53, 0, 2098⟩

/-- Single precision: 24 bits, spacing down to `2^-149`. -/
def single : Format := ⟨24, 925, 1202⟩

/-- Half precision: 11 bits, spacing down to `2^-24`. -/
def half : Format := ⟨11, 1050, 1090⟩

/-- The 16-bit format with the range of single precision: 8 bits, spacing down to `2^-133`. -/
def brain : Format := ⟨8, 941, 1202⟩

/-- The binary exponent of the spacing that `f` has at the magnitude `n`. -/
def spacing (f : Format) (n : Nat) : Nat :=
  max f.finest (n.log2 + 1 - f.precision)

/-- `f` holds the magnitude `n` exactly: it is in range and a multiple of the spacing there. -/
def Fits (f : Format) (n : Nat) : Prop :=
  n < twoPow f.limit ∧ twoPow (f.spacing n) ∣ n

instance (f : Format) (n : Nat) : Decidable (f.Fits n) :=
  inferInstanceAs (Decidable (_ ∧ _))

/-- The magnitude of `f` nearest to `n / d` quanta, as if `f` had no largest number.  A tie goes to
the neighbour with an even last bit. -/
def nearest (f : Format) (n d : Nat) : Nat :=
  let unit := twoPow (f.spacing (n / d))
  divNearest n (d * unit) * unit

/-- The largest magnitude of `f` that does not exceed `n`. -/
def truncate (f : Format) (n : Nat) : Nat :=
  let unit := twoPow (f.spacing n)
  n / unit * unit

/-- The largest finite magnitude of `f`: all significant bits set, just below the limit. -/
def largest (f : Format) : Nat :=
  (twoPow f.precision - 1) * twoPow (f.limit - f.precision)

theorem fits_zero (f : Format) : f.Fits 0 :=
  ⟨Nat.two_pow_pos _, Nat.dvd_zero _⟩

/-- A number with at most `precision` significant bits on a spacing of the format is held
exactly. -/
theorem spacing_dvd_of_lt {f : Format} {m e : Nat} (hm : m < twoPow f.precision)
    (he : f.finest ≤ e) :
    twoPow (f.spacing (m * twoPow e)) ∣ m * twoPow e := by
  change 2 ^ f.spacing (m * 2 ^ e) ∣ m * 2 ^ e
  rcases Nat.eq_zero_or_pos m with rfl | hpos
  · simp
  · have hne : m * 2 ^ e ≠ 0 :=
      Nat.mul_ne_zero (Nat.ne_of_gt hpos) (Nat.ne_of_gt (Nat.two_pow_pos e))
    have hlog : (m * 2 ^ e).log2 < f.precision + e := by
      rw [Nat.log2_lt hne, Nat.pow_add]
      exact Nat.mul_lt_mul_of_pos_right hm (Nat.two_pow_pos e)
    have hle : f.spacing (m * 2 ^ e) ≤ e := by unfold spacing; omega
    exact Nat.dvd_trans (Nat.pow_dvd_pow 2 hle) (Nat.dvd_mul_left _ _)

theorem spacing_dvd_two_pow {f : Format} {e : Nat} (hp : 0 < f.precision) (he : f.finest ≤ e) :
    twoPow (f.spacing (twoPow f.precision * twoPow e)) ∣ twoPow f.precision * twoPow e := by
  change 2 ^ f.spacing (2 ^ f.precision * 2 ^ e) ∣ 2 ^ f.precision * 2 ^ e
  rw [← Nat.pow_add]
  apply Nat.pow_dvd_pow
  unfold spacing
  rw [Nat.log2_two_pow]
  omega

/-- The quotient on the chosen spacing has at most `precision` bits, up to the next power of two. -/
theorem divNearest_spacing_le (f : Format) (n d : Nat) :
    divNearest n (d * twoPow (f.spacing (n / d))) ≤ twoPow f.precision := by
  change divNearest n (d * 2 ^ f.spacing (n / d)) ≤ 2 ^ f.precision
  refine Nat.le_trans (divNearest_le _ _) ?_
  have hlt : n / (d * 2 ^ f.spacing (n / d)) < 2 ^ f.precision := by
    rw [← Nat.div_div_eq_div_mul, Nat.div_lt_iff_lt_mul (Nat.two_pow_pos _), ← Nat.pow_add]
    rcases Nat.eq_zero_or_pos (n / d) with h0 | hpos
    · rw [h0]; exact Nat.two_pow_pos _
    · rw [← Nat.log2_lt (Nat.ne_of_gt hpos)]
      unfold spacing
      omega
  omega

/-- **Rounding lands in the format**, unless it leaves the finite range. -/
theorem fits_nearest {f : Format} (hp : 0 < f.precision) {n d : Nat}
    (h : f.nearest n d < twoPow f.limit) : f.Fits (f.nearest n d) := by
  refine ⟨h, ?_⟩
  have hfin : f.finest ≤ f.spacing (n / d) := Nat.le_max_left _ _
  rcases Nat.lt_or_eq_of_le (divNearest_spacing_le f n d) with hlt | heq
  · exact spacing_dvd_of_lt hlt hfin
  · unfold nearest
    simp only [heq]
    exact spacing_dvd_two_pow hp hfin

end Format

end Number
end LanePadding
