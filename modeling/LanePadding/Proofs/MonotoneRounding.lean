import LanePadding.Proofs.IntegerArithmetic

/-!
# Rounding is a monotone projection

`DType.round` projects the doubles onto the numbers that an element type stores (`DType.Stores`),
and it keeps their order.  Rounding to a format, cutting off low bits and cutting off a fraction all
work on the magnitude of a number alone and leave its sign, so each of them is monotone if the
function of magnitudes is (`Double.OnMagnitudes`).

The spacing of a format grows with the magnitude.  Two magnitudes with the same spacing are rounded
to multiples of one number, and there is nothing to show; otherwise a power of two lies between
them, and neither of them is rounded past it (`Format.exists_between_of_spacing_lt`).

## What is here

* `Format.nearest_mono`, `Format.truncate_mono` — rounding magnitudes.
* `Double.OnMagnitudes` — functions that work on magnitudes; `Double.OnMagnitudes.le` says that they
  keep the order.
* `DType.Stores` — the numbers that an element type stores; `DType.stores_round` and
  `DType.round_agrees_of_stores` say that these are the ones which rounding answers and keeps.
* `DType.round_monotone_projection` — all of this together.
-/

set_option autoImplicit false

namespace LanePadding
namespace Number

/-! ## Magnitudes -/

theorem divNearest_mono {m n : Nat} (d : Nat) (h : m ≤ n) : divNearest m d ≤ divNearest n d := by
  rcases Nat.lt_or_eq_of_le (Nat.div_le_div_right (c := d) h) with hlt | heq
  · calc divNearest m d ≤ m / d + 1 := divNearest_le m d
      _ ≤ n / d := hlt
      _ ≤ divNearest n d := div_le_divNearest n d
  · -- the same quotient, and the remainder decides
    have hmod : m % d ≤ n % d := by
      have hm := Nat.div_add_mod m d
      have hn := Nat.div_add_mod n d
      rw [heq] at hm
      omega
    simp only [divNearest, heq]
    split_ifs <;> omega

namespace Format

variable {f : Format} {m n d : Nat}

/-- **Rounding to the nearest number of a format keeps the order.** -/
theorem nearest_mono (hp : 0 < f.precision) (hd : 0 < d) (h : m ≤ n) :
    f.nearest m d ≤ f.nearest n d := by
  rcases Nat.lt_or_eq_of_le (f.spacing_mono (Nat.div_le_div_right (c := d) h)) with hlt | heq
  · obtain ⟨p, hmp, hpn, hspacing, hdvd⟩ := exists_between_of_spacing_lt hp hlt
    calc f.nearest m d ≤ p := nearest_le (hspacing ▸ hdvd) ((Nat.div_lt_iff_lt_mul hd).1 hmp).le
      _ ≤ f.nearest n d := le_nearest_of_dvd hd hdvd ((Nat.le_div_iff_mul_le hd).1 hpn)
  · simp only [nearest, heq]
    exact Nat.mul_le_mul_right _ (divNearest_mono _ h)

/-- **Cutting off low bits keeps the order.** -/
theorem truncate_mono (hp : 0 < f.precision) (h : m ≤ n) : f.truncate m ≤ f.truncate n := by
  rcases Nat.lt_or_eq_of_le (f.spacing_mono h) with hlt | heq
  · obtain ⟨p, hmp, hpn, -, hdvd⟩ := exists_between_of_spacing_lt hp hlt
    calc f.truncate m ≤ m := Nat.div_mul_le_self _ _
      _ ≤ p := hmp.le
      _ = p / twoPow (f.spacing n) * twoPow (f.spacing n) := (Nat.div_mul_cancel hdvd).symm
      _ ≤ f.truncate n := Nat.mul_le_mul_right _ (Nat.div_le_div_right hpn)
  · simp only [truncate, heq]
    exact Nat.mul_le_mul_right _ (Nat.div_le_div_right h)

/-- The format is one whose numbers are doubles. -/
structure Narrow (f : Format) : Prop where
  pos : 0 < f.precision
  precision : f.precision ≤ 53
  limit : f.limit ≤ 2098

theorem Narrow.fits (hf : f.Narrow) (h : f.Fits n) : Format.double.Fits n :=
  h.mono hf.precision (Nat.zero_le _) hf.limit

/-- A double with its low bits cut off is a double. -/
theorem Narrow.fits_truncate (hf : f.Narrow) (h : Format.double.Fits n) :
    Format.double.Fits (f.truncate n) := by
  have hdvd : twoPow (f.spacing (f.truncate n)) ∣ f.truncate n :=
    spacing_dvd_of_lt (div_spacing_lt f n) (Nat.le_max_left _ _)
  have hspacing : Format.double.spacing (f.truncate n) ≤ f.spacing (f.truncate n) := by
    have hprecision : f.precision ≤ 53 := hf.precision
    simp only [spacing, double]
    omega
  exact ⟨Nat.lt_of_le_of_lt (Nat.div_mul_le_self _ _) h.1,
    Nat.dvd_trans (Nat.pow_dvd_pow 2 hspacing) hdvd⟩

/-- The magnitude nearest to `n`, or that of the infinities if it is past the largest number of the
format. -/
def nearestOrLimit (f : Format) (n : Nat) : Nat :=
  if f.nearest n 1 < twoPow f.limit then f.nearest n 1 else twoPow 2098

theorem Narrow.nearestOrLimit_mono (hf : f.Narrow) (h : m ≤ n) :
    f.nearestOrLimit m ≤ f.nearestOrLimit n := by
  have hnearest := nearest_mono hf.pos Nat.one_pos h
  have hlimit : twoPow f.limit ≤ twoPow 2098 := twoPow_le hf.limit
  unfold nearestOrLimit
  split_ifs <;> omega

end Format

/-- The integral part of a double is a double. -/
theorem fits_integralPart {q : Nat} (h : Format.double.Fits q) :
    Format.double.Fits (q / quantaPerUnit * quantaPerUnit) := by
  by_cases hsmall : q / quantaPerUnit ≤ twoPow 53
  · exact fits_mul_quantaPerUnit hsmall
  · -- a larger double is a multiple of one
    have hne : q ≠ 0 := by
      rintro rfl
      exact hsmall (by simp)
    have hlarge : twoPow (53 + 1074) ≤ q := by
      rw [twoPow_add, ← quantaPerUnit_eq]
      exact (Nat.le_div_iff_mul_le quantaPerUnit_pos).1 (Nat.le_of_not_le hsmall)
    have hlog : ∀ {e : Nat}, twoPow e ≤ q → e ≤ q.log2 := (Nat.le_log2 hne).2
    have hspacing : 1074 ≤ Format.double.spacing q := by
      have := hlog hlarge
      simp only [Format.spacing, Format.double]
      omega
    have hdvd : ∀ {e : Nat}, e ≤ Format.double.spacing q → twoPow e ∣ q :=
      fun he => Nat.dvd_trans (Nat.pow_dvd_pow 2 he) h.2
    rwa [Nat.div_mul_cancel (quantaPerUnit_eq ▸ hdvd hspacing)]

/-! ## Doubles -/

namespace Double

variable {f : Format} {g : Double → Double} {magnitude : Nat → Nat} {x y : Double}

theorem le_key (x : Double) : -(twoPow 2098 : Int) ≤ x.key := by
  have hneg := key_le x.neg
  rw [key_neg] at hneg
  omega

/-- The function keeps the infinities and the signs of numbers, and what it makes of a magnitude
grows with it. -/
structure OnMagnitudes (g : Double → Double) (magnitude : Nat → Nat) : Prop where
  inf : ∀ s, g (inf s) = .inf s
  isNaN_fin : ∀ s q hq, (g (fin s q hq)).isNaN = false
  key_fin : ∀ s q hq, (g (fin s q hq)).key = if s then -(magnitude q : Int) else magnitude q
  zero : magnitude 0 = 0
  mono : ∀ {q r}, q ≤ r → magnitude q ≤ magnitude r

namespace OnMagnitudes

theorem isNaN (h : OnMagnitudes g magnitude) (hx : x.isNaN = false) : (g x).isNaN = false := by
  cases x with
  | nan => exact absurd hx (by decide)
  | inf s => rw [h.inf s]; rfl
  | fin s q hq => exact h.isNaN_fin s q hq

theorem key_le_of_fin (h : OnMagnitudes g magnitude) {s t : Bool} {q r : Nat}
    {hq : Format.double.Fits q} {hr : Format.double.Fits r}
    (hle : (fin s q hq).key ≤ (fin t r hr).key) :
    (g (fin s q hq)).key ≤ (g (fin t r hr)).key := by
  rw [h.key_fin, h.key_fin]
  cases s <;> cases t <;> simp only [key, if_true, Bool.false_eq_true, if_false] at hle ⊢
  case false.false =>
    have := h.mono (q := q) (r := r) (by omega)
    omega
  case true.true =>
    have := h.mono (q := r) (r := q) (by omega)
    omega
  case true.false => omega
  case false.true =>
    -- only the zeros are in this order
    obtain ⟨rfl, rfl⟩ : q = 0 ∧ r = 0 := by omega
    simp only [h.zero]
    omega

/-- **A function that works on magnitudes keeps the order.** -/
theorem le (h : OnMagnitudes g magnitude) (hxy : x.le y = true) : (g x).le (g y) = true := by
  obtain ⟨hx, hy, hle⟩ := le_iff.1 hxy
  refine le_iff.2 ⟨h.isNaN hx, h.isNaN hy, ?_⟩
  have hpos : ∀ e : Nat, (0 : Int) < (twoPow e : Int) :=
    fun e => Int.natCast_pos.2 (Nat.two_pow_pos e)
  cases x with
  | nan => exact absurd hx (by decide)
  | inf s =>
    cases s with
    | true =>
      rw [h.inf]
      exact le_key _
    | false =>
      have htop : y = .inf false := by
        cases y with
        | nan => exact absurd hy (by decide)
        | inf t =>
          cases t with
          | true =>
            have := hpos 2098
            simp only [key, if_true, Bool.false_eq_true, if_false] at hle
            omega
          | false => rfl
        | fin t r hr =>
          have := (key_fin_lt t hr).2
          simp only [key, Bool.false_eq_true, if_false] at hle this
          omega
      rw [htop]
  | fin s q hq =>
    cases y with
    | nan => exact absurd hy (by decide)
    | inf t =>
      cases t with
      | true =>
        have := (key_fin_lt s hq).1
        simp only [key, if_true] at hle this
        omega
      | false =>
        rw [h.inf]
        exact key_le _
    | fin t r hr => exact h.key_le_of_fin hle

end OnMagnitudes

theorem key_fin_eq (s : Bool) {q : Nat} (hq : Format.double.Fits q) :
    (fin s q hq).key = if s then -(q : Int) else q := rfl

theorem key_inf (s : Bool) : (inf s).key = if s then -(twoPow 2098 : Int) else twoPow 2098 := rfl

theorem ofQuanta_of_fits (s : Bool) {q : Nat} (hq : Format.double.Fits q) :
    ofQuanta s q = fin s q hq := dif_pos hq

theorem trunc_fin (s : Bool) {q : Nat} (hq : Format.double.Fits q) :
    (fin s q hq).trunc = fin s (q / quantaPerUnit * quantaPerUnit) (fits_integralPart hq) :=
  ofQuanta_of_fits s (fits_integralPart hq)

theorem roundTo_onMagnitudes (hf : f.Narrow) : OnMagnitudes (roundTo f) f.nearestOrLimit where
  inf _ := rfl
  isNaN_fin s q _ := isNaN_round f s q 1
  key_fin s q hq := by
    show (f.round s q 1).key = _
    by_cases h : f.nearest q 1 < twoPow f.limit
    · rw [Format.round_eq_fin h (hf.fits (Format.fits_nearest hf.pos h)), key_fin_eq,
        Format.nearestOrLimit, if_pos h]
    · have hinf : f.round s q 1 = .inf s := dif_neg fun hlt => h hlt.1
      rw [hinf, key_inf, Format.nearestOrLimit, if_neg h]
  zero := by
    have hpos : 0 < twoPow f.limit := Nat.two_pow_pos _
    rw [Format.nearestOrLimit, Format.nearest_zero, if_pos hpos]
  mono h := hf.nearestOrLimit_mono h

theorem truncateTo_onMagnitudes (hf : f.Narrow) : OnMagnitudes (truncateTo f) f.truncate where
  inf _ := rfl
  isNaN_fin s q _ := isNaN_ofQuanta s _
  key_fin s q hq := by
    show (ofQuanta s (f.truncate q)).key = _
    rw [ofQuanta_of_fits s (hf.fits_truncate hq), key_fin_eq]
  zero := by rw [Format.truncate, Nat.zero_div, Nat.zero_mul]
  mono h := Format.truncate_mono hf.pos h

theorem trunc_onMagnitudes : OnMagnitudes trunc fun q => q / quantaPerUnit * quantaPerUnit where
  inf _ := rfl
  isNaN_fin s q _ := isNaN_ofQuanta s _
  key_fin s q hq := by rw [trunc_fin, key_fin_eq]
  zero := by rw [Nat.zero_div, Nat.zero_mul]
  mono h := Nat.mul_le_mul_right _ (Nat.div_le_div_right h)

/-- A finite number without a fraction. -/
inductive IsIntegral : Double → Prop
  | fin {negative : Bool} {q : Nat} {hq : Format.double.Fits q} (h : quantaPerUnit ∣ q) : IsIntegral
      (fin negative q hq)

theorem isIntegral_of_trunc {s : Bool} {q : Nat} {hq : Format.double.Fits q}
    (h : (fin s q hq).trunc = fin s q hq) :
    (fin s q hq).IsIntegral := by
  rw [trunc_fin] at h
  exact .fin ⟨q / quantaPerUnit, by rw [Nat.mul_comm, (fin.inj h).2]⟩

theorem IsIntegral.trunc_eq (h : x.IsIntegral) : x.trunc = x := by
  cases h with
  | fin h => simp only [trunc_fin, Nat.div_mul_cancel h]

end Double
end Number

/-! ## Element types -/

namespace DType

open Number

variable {d : DType} {low high : Int} {a b v : Double}

theorem narrow_single : Format.single.Narrow := ⟨by decide, by decide, by decide⟩

theorem narrow_half : Format.half.Narrow := ⟨by decide, by decide, by decide⟩

theorem narrow_brain : Format.brain.Narrow := ⟨by decide, by decide, by decide⟩

/-- **Clamping keeps the order.** -/
theorem clamp_le (h : Spans (.ofInt low) (.ofInt high)) (hab : a.le b = true) :
    (clamp low high a).le (clamp low high b) = true := by
  obtain ⟨ha, hb, hle⟩ := Double.le_iff.1 hab
  refine Double.le_iff.2 ⟨isNaN_clamp h ha, isNaN_clamp h hb, ?_⟩
  rw [key_clamp h ha, key_clamp h hb]
  omega

/-- **Rounding to an element type keeps the order.**  The booleans do not: a negative number is
rounded to one. -/
theorem round_le (hd : d ≠ .bool) (hab : a.le b = true) : (d.round a).le (d.round b) = true := by
  have hsingle := (Double.roundTo_onMagnitudes narrow_single).le hab
  obtain ⟨ha, hb, -⟩ := Double.le_iff.1 hab
  have hint : ∀ {low high}, d.intRange? = some (low, high) → (d.round a).le (d.round b) = true := by
    intro low high hrange
    rw [round_eq_of_intRange? hd hrange, round_eq_of_intRange? hd hrange, if_neg (by simp [ha]),
      if_neg (by simp [hb])]
    exact clamp_le (spans_of_intRange? hrange) (Double.trunc_onMagnitudes.le hab)
  cases d
  case bool => exact absurd rfl hd
  case float32 => exact hsingle
  case float16 => exact (Double.roundTo_onMagnitudes narrow_half).le hsingle
  case bfloat16 => exact (Double.truncateTo_onMagnitudes narrow_brain).le hsingle
  case int8 | int16 | int32 | int64 | uint8 | uint16 | uint32 | uint64 => exact hint rfl
  all_goals exact hab

/-- The numbers that an element type stores: those of its format, the integers of its range, or the
truth values. -/
def Stores (d : DType) (v : Double) : Prop :=
  match d with
  | .float32 => v.Holds .single
  | .float16 => v.Holds .half
  | .bfloat16 => v.Holds .brain
  | .bool => v.isZero = true ∨ v = .one
  | d =>
    match d.intRange? with
    | some (low, high) => v.IsIntegral ∧ (Double.ofInt low).le v = true ∧ v.le (.ofInt high) = true
    | none => True

theorem stores_iff_of_intRange? (hd : d ≠ .bool) (h : d.intRange? = some (low, high)) : d.Stores v ↔
    v.IsIntegral ∧ (Double.ofInt low).le v = true ∧ v.le (.ofInt high) = true := by
  cases d
  case int8 | int16 | int32 | int64 | uint8 | uint16 | uint32 | uint64 =>
    obtain ⟨rfl, rfl⟩ := Prod.mk.inj (Option.some.inj h)
    rfl
  case bool => exact absurd rfl hd
  all_goals exact absurd h (by simp [intRange?])

/-- The ends of a range are finite numbers. -/
theorem finite_ends (h : d.intRange? = some (low, high)) :
    (∃ s q hq, Double.ofInt low = .fin s q hq) ∧ ∃ s q hq, Double.ofInt high = .fin s q hq := by
  have hends : low.natAbs ≤ twoPow 64 ∧ high.natAbs ≤ twoPow 64 := by
    cases d <;> simp only [intRange?, Option.some.injEq, Prod.mk.injEq, reduceCtorEq] at h
    all_goals
      obtain ⟨rfl, rfl⟩ := h
      decide
  exact ⟨Double.ofInt_finite hends.1, Double.ofInt_finite hends.2⟩

/-- What needs no rounding is an integer of the range. -/
theorem stores_of_round_eq (hd : d ≠ .bool) (h : d.intRange? = some (low, high))
    (hv : d.round v = v) : d.Stores v := by
  have hspans := spans_of_intRange? h
  obtain ⟨⟨s, q, hq, hlow⟩, t, r, hr, hhigh⟩ := finite_ends h
  obtain ⟨hnumber, htrunc, hclamp⟩ := integral_of_round_eq hd h hv
  have hordered : (Double.ofInt low).key ≤ (Double.ofInt high).key := by
    have hmax := (Double.max_key hspans.isNaN_high hspans.isNaN_low).2
    rw [hspans.ordered] at hmax
    omega
  have hkey := key_clamp hspans hnumber
  rw [hclamp] at hkey
  have hlowest : (Double.ofInt low).key ≤ v.key := by omega
  have hhighest : v.key ≤ (Double.ofInt high).key := by omega
  refine (stores_iff_of_intRange? hd h).2 ⟨?_, Double.le_iff.2 ⟨hspans.isNaN_low, hnumber, hlowest⟩,
    Double.le_iff.2 ⟨hnumber, hspans.isNaN_high, hhighest⟩⟩
  cases v with
  | nan => exact absurd hnumber (by decide)
  | inf u =>
    -- an infinity would be past one of the ends
    rw [hlow] at hlowest
    rw [hhigh] at hhighest
    cases u with
    | true => exact absurd hlowest (not_le_of_gt (Double.key_fin_lt s hq).1)
    | false => exact absurd hhighest (not_le_of_gt (Double.key_fin_lt t hr).2)
  | fin u k hk => exact Double.isIntegral_of_trunc htrunc

/-- **What rounding answers is a number of the element type.** -/
theorem stores_round (d : DType) (v : Double) : d.Stores (d.round v) := by
  have hsingle := Double.holds_roundTo (f := .single) (by decide) v
  cases d
  case bool =>
    show (bool.round v).isZero = true ∨ bool.round v = .one
    simp only [round]
    split
    · exact .inl rfl
    · exact .inr rfl
  case float32 => exact hsingle
  case float16 => exact Double.holds_roundTo (by decide) _
  case bfloat16 => exact Double.holds_truncateTo (by decide) hsingle
  case int8 | int16 | int32 | int64 | uint8 | uint16 | uint32 | uint64 =>
    exact stores_of_round_eq (by decide) rfl (round_round _ v)
  all_goals trivial

/-- The integers of the range are not changed, except that a zero may lose its sign. -/
theorem round_agrees_of_integral (hd : d ≠ .bool) (h : d.intRange? = some (low, high))
    (hv : d.Stores v) :
    (d.round v).Agrees v := by
  have hspans := spans_of_intRange? h
  obtain ⟨hintegral, hlow, hhigh⟩ := (stores_iff_of_intRange? hd h).1 hv
  obtain ⟨-, hnumber, hlow⟩ := Double.le_iff.1 hlow
  obtain ⟨-, -, hhigh⟩ := Double.le_iff.1 hhigh
  rw [round_eq_of_intRange? hd h, if_neg (by simp [hnumber]), hintegral.trunc_eq]
  refine Double.agrees_of_key_eq (isNaN_clamp hspans hnumber) hnumber ?_
  rw [key_clamp hspans hnumber]
  omega

/-- **The numbers of an element type need no rounding.** -/
theorem round_agrees_of_stores (hv : d.Stores v) : (d.round v).Agrees v := by
  have hholds : ∀ {f : Format}, v.Holds f → f.precision ≤ 24 → 925 ≤ f.finest → f.limit ≤ 1202 →
      v.roundTo .single = v :=
    fun h hprecision hfinest hlimit => Double.roundTo_of_holds (h.mono hprecision hfinest hlimit)
  cases d
  case bool =>
    obtain hzero | hone : v.isZero = true ∨ v = .one := hv
    · rw [round, hzero, Bool.or_true, if_pos rfl]
      exact .inr ⟨rfl, hzero⟩
    · rw [hone, round_one]
      exact .refl _
  case float32 => exact .inl (Double.roundTo_of_holds hv)
  case float16 =>
    rw [round, hholds hv (by decide) (by decide) (by decide), Double.roundTo_of_holds hv]
    exact .refl _
  case bfloat16 =>
    rw [round, hholds hv (by decide) (by decide) (by decide), Double.truncateTo_of_holds hv]
    exact .refl _
  case int8 | int16 | int32 | int64 | uint8 | uint16 | uint32 | uint64 =>
    exact round_agrees_of_integral (by decide) rfl hv
  all_goals exact .refl _

/-- **Rounding is a monotone projection.**  Rounding twice is rounding once, a NaN staying a NaN;
the order of numbers is kept by all element types but the booleans; an integer type answers an
integral number between its limits, also for a NaN and the infinities.  The numbers that are
answered are those that the element type stores, and these are kept. -/
theorem round_monotone_projection (d : DType) :
    (∀ v, d.round (d.round v) = d.round v) ∧
    (d ≠ .bool → ∀ a b, a.le b = true → (d.round a).le (d.round b) = true) ∧
    (d.isInt = true → ∃ low high, d.lowest = .ok low ∧ d.highest = .ok high ∧
      ∀ v, (d.round v).IsIntegral ∧ low.le (d.round v) = true ∧ (d.round v).le high = true) ∧
    ∀ v, d.Stores (d.round v) ∧ (d.Stores v → (d.round v).Agrees v) := by
  refine ⟨round_round d, fun hd a b => round_le hd, fun hint => ?_,
    fun v => ⟨stores_round d v, round_agrees_of_stores⟩⟩
  obtain ⟨hd, low, high, hrange⟩ := exists_intRange? hint
  obtain ⟨hlowest, hhighest⟩ := limits_of_intRange? hrange
  exact ⟨_, _, hlowest, hhighest, fun v => (stores_iff_of_intRange? hd hrange).1 (stores_round d v)⟩

/-- Half precision past its largest number, where 65519 is still rounded down and 65520 to the
infinity; and the greatest value of the 64-bit integers, which is `2^63` in double precision. -/
theorem round_monotone_projection_limits :
    (float16.round (.ofInt 65519)).le (float16.round (.ofInt 65520)) = true ∧
    float16.round (.ofInt 65519) = .ofInt 65504 ∧ float16.round (.ofInt 65520) = .inf false ∧
    (int64.round (.inf false)).IsIntegral ∧
      int64.round (.inf false) = .ofInt 9223372036854775807 := by
  obtain ⟨-, hmono, -⟩ := round_monotone_projection .float16
  obtain ⟨-, -, hint, -⟩ := round_monotone_projection .int64
  obtain ⟨low, high, -, -, hall⟩ := hint rfl
  exact ⟨hmono (by decide) _ _ (by decide +kernel), by decide +kernel, by decide +kernel,
    (hall _).1, by decide +kernel⟩

end DType
end LanePadding
