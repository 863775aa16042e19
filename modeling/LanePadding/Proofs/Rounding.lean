import LanePadding.Proofs.Equality

/-!
# Rounding twice

`DType.round` brings a double to a value of an element type.  What it answers needs no more rounding
(`DType.round_round`), so that the values an element type can store are just the fixed points of its
rounding.

For floats, a rounded number is one that the format holds (`Double.Holds`), and a format rounds or
truncates what it holds to itself.  Half precision and the 16-bit format with the range of single
precision are reached through single precision, which holds their numbers as well
(`Format.Fits.mono`).  For integers, the maximum and the minimum of two numbers are one of the two,
so a number that was clamped is integral and within the range.

## What is here

* `Format.fits_truncate`, `Format.truncate_of_fits` — truncation lands in the format, and then
  changes nothing.
* `DType.clamp_clamp`, `DType.round_round` — rounding twice is rounding once.
-/

set_option autoImplicit false

namespace LanePadding
namespace Number

/-! ## Formats -/

namespace Format

variable {f f' : Format} {n : Nat}

/-- A wider format with a finer spacing holds whatever a format holds. -/
theorem Fits.mono (h : f.Fits n) (hprecision : f.precision ≤ f'.precision)
    (hfinest : f'.finest ≤ f.finest) (hlimit : f.limit ≤ f'.limit) : f'.Fits n := by
  have hspacing : f'.spacing n ≤ f.spacing n := by
    unfold spacing
    omega
  exact ⟨Nat.lt_of_lt_of_le h.1 (Nat.pow_le_pow_right (by decide) hlimit),
    Nat.dvd_trans (Nat.pow_dvd_pow 2 hspacing) h.2⟩

/-- On the spacing of the format, a magnitude has at most `precision` bits. -/
theorem div_spacing_lt (f : Format) (n : Nat) : n / twoPow (f.spacing n) < twoPow f.precision := by
  change n / 2 ^ f.spacing n < 2 ^ f.precision
  rw [Nat.div_lt_iff_lt_mul (Nat.two_pow_pos _), ← Nat.pow_add]
  rcases Nat.eq_zero_or_pos n with rfl | hpos
  · exact Nat.two_pow_pos _
  · rw [← Nat.log2_lt (Nat.ne_of_gt hpos)]
    unfold spacing
    omega

/-- **Truncation lands in the format**, unless the magnitude was out of range. -/
theorem fits_truncate (h : n < twoPow f.limit) : f.Fits (f.truncate n) :=
  ⟨Nat.lt_of_le_of_lt (Nat.div_mul_le_self n _) h, spacing_dvd_of_lt (div_spacing_lt f n)
    (Nat.le_max_left _ _)⟩

theorem truncate_of_fits (h : f.Fits n) : f.truncate n = n := Nat.div_mul_cancel h.2

end Format

/-! ## Doubles -/

namespace Double

variable {f f' : Format} {x y : Double}

theorem Holds.mono (h : x.Holds f) (hprecision : f.precision ≤ f'.precision)
    (hfinest : f'.finest ≤ f.finest) (hlimit : f.limit ≤ f'.limit) : x.Holds f' := by
  cases h with
  | nan => exact .nan
  | inf s => exact .inf s
  | fin h => exact .fin (h.mono hprecision hfinest hlimit)

/-- Truncation answers a number of the format if the number is in its range. -/
theorem holds_truncateTo (hlimit : f'.limit ≤ f.limit) (h : x.Holds f') :
    (x.truncateTo f).Holds f := by
  cases h with
  | nan => exact .nan
  | inf s => exact .inf s
  | @fin s q hq h =>
    change (ofQuanta s (f.truncate q)).Holds f
    unfold ofQuanta
    split
    · exact .fin (Format.fits_truncate
        (Nat.lt_of_lt_of_le h.1 (Nat.pow_le_pow_right (by decide) hlimit)))
    · exact .inf s

theorem truncateTo_of_holds (h : x.Holds f) : x.truncateTo f = x := by
  cases h with
  | nan => rfl
  | inf s => rfl
  | @fin s q hq h =>
    change ofQuanta s (f.truncate q) = _
    simp only [Format.truncate_of_fits h, ofQuanta, dif_pos hq]

/-- The maximum of two numbers is one of them. -/
theorem max_eq_or (hx : x.isNaN = false) (hy : y.isNaN = false) : x.max y = x ∨ x.max y = y := by
  simp only [max, hx, hy, Bool.or_self, Bool.false_eq_true, if_false]
  split
  · rename_i h
    exact h.imp Eq.symm Eq.symm
  · split
    · split
      · exact .inr rfl
      · exact .inl rfl
    · split
      · exact .inl rfl
      · exact .inr rfl

theorem isNaN_neg (x : Double) : x.neg.isNaN = x.isNaN := by cases x <;> rfl

theorem neg_neg (x : Double) : x.neg.neg = x := by cases x <;> simp [neg]

theorem min_eq_or (hx : x.isNaN = false) (hy : y.isNaN = false) : x.min y = x ∨ x.min y = y := by
  have hmax := max_eq_or ((isNaN_neg x).trans hx) ((isNaN_neg y).trans hy)
  rw [min_eq_neg_max]
  exact hmax.imp (fun h => by rw [h, neg_neg]) fun h => by rw [h, neg_neg]

theorem max_self (x : Double) : x.max x = x := by
  cases hx : x.isNaN with
  | true =>
    cases x with
    | nan => rfl
    | inf s => simp [isNaN] at hx
    | fin s q hq => simp [isNaN] at hx
  | false => exact (max_eq_or hx hx).elim id id

theorem min_self (x : Double) : x.min x = x := by rw [min_eq_neg_max, max_self, neg_neg]

/-- The maximum with a bound is kept by the same bound. -/
theorem max_max (hx : x.isNaN = false) (hy : y.isNaN = false) : (x.max y).max y = x.max y := by
  rcases max_eq_or hx hy with h | h
  · rw [h, h]
  · rw [h, max_self]

theorem min_min (hx : x.isNaN = false) (hy : y.isNaN = false) : (x.min y).min y = x.min y := by
  rcases min_eq_or hx hy with h | h
  · rw [h, h]
  · rw [h, min_self]

/-- An integral part has no fraction. -/
theorem trunc_trunc (x : Double) : x.trunc.trunc = x.trunc := by
  cases x with
  | nan => rfl
  | inf s => rfl
  | fin s q hq =>
    have hpos := quantaPerUnit_pos
    change (ofQuanta s (q / quantaPerUnit * quantaPerUnit)).trunc =
      ofQuanta s (q / quantaPerUnit * quantaPerUnit)
    generalize q / quantaPerUnit = k
    by_cases hfits : Format.double.Fits (k * quantaPerUnit)
    · have hk : ofQuanta s (k * quantaPerUnit) = .fin s _ hfits := dif_pos hfits
      rw [hk]
      change ofQuanta s (k * quantaPerUnit / quantaPerUnit * quantaPerUnit) = _
      rw [Nat.mul_div_cancel _ hpos, hk]
    · have hk : ofQuanta s (k * quantaPerUnit) = .inf s := dif_neg hfits
      rw [hk]
      rfl

theorem isNaN_ofQuanta (s : Bool) (q : Nat) : (ofQuanta s q).isNaN = false := by
  unfold ofQuanta
  split <;> rfl

theorem isNaN_trunc (x : Double) : x.trunc.isNaN = x.isNaN := by
  cases x with
  | nan => rfl
  | inf s => rfl
  | fin s q hq => exact isNaN_ofQuanta s _

end Double
end Number

/-! ## Element types -/

namespace DType

open Number

/-- The ends of a range of integers, as doubles: they are integral, and in order. -/
structure Spans (low high : Double) : Prop where
  isNaN_low : low.isNaN = false
  isNaN_high : high.isNaN = false
  trunc_low : low.trunc = low
  trunc_high : high.trunc = high
  ordered : high.max low = high

theorem spans_of_intRange? {d : DType} {low high : Int} (h : d.intRange? = some (low, high)) :
    Spans (.ofInt low) (.ofInt high) := by
  cases d
  case bool | int8 | int16 | int32 | int64 | uint8 | uint16 | uint32 | uint64 =>
    obtain ⟨rfl, rfl⟩ := Prod.mk.inj (Option.some.inj h)
    constructor <;> decide +kernel
  all_goals exact absurd h (by simp [intRange?])

variable {low high : Int} {v : Double}

/-- A clamped number is the number itself or an end of the range. -/
theorem clamp_cases (h : Spans (.ofInt low) (.ofInt high)) (hv : v.isNaN = false) :
    clamp low high v = v ∨ clamp low high v = .ofInt low ∨ clamp low high v = .ofInt high := by
  have hmax := Double.max_eq_or hv h.isNaN_low
  have hnumber : (v.max (.ofInt low)).isNaN = false := (Double.max_key hv h.isNaN_low).1
  rcases Double.min_eq_or hnumber h.isNaN_high with hmin | hmin
  · rw [clamp, hmin]
    exact hmax.imp id .inl
  · exact .inr (.inr hmin)

/-- **Clamping twice is clamping once.** -/
theorem clamp_clamp (h : Spans (.ofInt low) (.ofInt high)) (hv : v.isNaN = false) :
    clamp low high (clamp low high v) = clamp low high v := by
  have hnumber : (v.max (.ofInt low)).isNaN = false := (Double.max_key hv h.isNaN_low).1
  have habove : (clamp low high v).max (.ofInt low) = clamp low high v := by
    rcases Double.min_eq_or hnumber h.isNaN_high with hmin | hmin
    · rw [clamp, hmin, Double.max_max hv h.isNaN_low]
    · rw [clamp, hmin, h.ordered]
  calc clamp low high (clamp low high v)
      = (clamp low high v).min (.ofInt high) := by rw [clamp, habove]
    _ = clamp low high v := Double.min_min hnumber h.isNaN_high

/-- A clamped integral number is one. -/
theorem trunc_clamp (h : Spans (.ofInt low) (.ofInt high)) (hv : v.isNaN = false)
    (htrunc : v.trunc = v) :
    (clamp low high v).trunc = clamp low high v := by
  rcases clamp_cases h hv with hclamp | hclamp | hclamp <;> rw [hclamp]
  · exact htrunc
  · exact h.trunc_low
  · exact h.trunc_high

theorem isNaN_clamp (h : Spans (.ofInt low) (.ofInt high)) (hv : v.isNaN = false) :
    (clamp low high v).isNaN = false := by
  rcases clamp_cases h hv with hclamp | hclamp | hclamp <;> rw [hclamp]
  · exact hv
  · exact h.isNaN_low
  · exact h.isNaN_high

/-- What an element type with a range of integers makes of a double. -/
theorem round_eq_of_intRange? {d : DType} (hd : d ≠ .bool) (h : d.intRange? = some (low, high))
    (v : Double) :
    d.round v = if v.isNaN then .zero else clamp low high v.trunc := by
  cases d
  case int8 | int16 | int32 | int64 | uint8 | uint16 | uint32 | uint64 =>
    obtain ⟨rfl, rfl⟩ := Prod.mk.inj (Option.some.inj h)
    rfl
  case bool => exact absurd rfl hd
  all_goals exact absurd h (by simp [intRange?])

/-- Integers need no rounding. -/
theorem round_round_of_intRange? {d : DType} (hd : d ≠ .bool) (h : d.intRange? = some (low, high))
    (v : Double) :
    d.round (d.round v) = d.round v := by
  have hspans := spans_of_intRange? h
  cases hv : v.isNaN with
  | true => rw [round_eq_of_intRange? hd h v, if_pos hv, round_zero]
  | false =>
    have hnumber : v.trunc.isNaN = false := (Double.isNaN_trunc v).trans hv
    have hround : d.round v = clamp low high v.trunc := by
      rw [round_eq_of_intRange? hd h, if_neg (by simp [hv])]
    rw [hround, round_eq_of_intRange? hd h, if_neg (by simp [isNaN_clamp hspans hnumber]),
      trunc_clamp hspans hnumber (Double.trunc_trunc v), clamp_clamp hspans hnumber]

/-- **Rounding twice is rounding once.** -/
theorem round_round (d : DType) (v : Double) : d.round (d.round v) = d.round v := by
  have hsingle := Double.holds_roundTo (f := .single) (by decide) v
  cases d
  case bool =>
    change bool.round (if v.isNaN || v.isZero then .zero else .one) = if v.isNaN || v.isZero then
      .zero else .one
    split
    · exact round_zero _
    · exact round_one _
  case float32 => exact Double.roundTo_of_holds hsingle
  case float16 =>
    have hhalf := Double.holds_roundTo (f := .half) (by decide) (v.roundTo .single)
    change (((v.roundTo .single).roundTo .half).roundTo .single).roundTo .half =
      (v.roundTo .single).roundTo .half
    rw [Double.roundTo_of_holds (hhalf.mono (by decide) (by decide) (by decide)),
      Double.roundTo_of_holds hhalf]
  case bfloat16 =>
    have hbrain := Double.holds_truncateTo (f := .brain) (by decide) hsingle
    change (((v.roundTo .single).truncateTo .brain).roundTo .single).truncateTo .brain =
      (v.roundTo .single).truncateTo .brain
    rw [Double.roundTo_of_holds (hbrain.mono (by decide) (by decide) (by decide)),
      Double.truncateTo_of_holds hbrain]
  case int8 | int16 | int32 | int64 | uint8 | uint16 | uint32 | uint64 =>
    exact round_round_of_intRange? (by decide) rfl v
  all_goals rfl

end DType
end LanePadding
