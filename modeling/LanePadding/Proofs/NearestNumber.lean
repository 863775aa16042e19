import Mathlib.Data.Nat.Log
import Mathlib.Tactic.Linarith
import Mathlib.Tactic.Ring
import LanePadding.Proofs.Rounding

/-!
# The number nearest to a quotient

`Format.nearest f n d` is the magnitude of the format `f` nearest to `n / d` quanta.  Two facts
about it carry every argument on exactness.  Rounding does not cross a number of the format: a
quotient that lies on one side of it is rounded to the same side or to that number itself
(`Format.nearest_le`, `Format.le_nearest`).  And it depends on the quotient alone, not on how the
quotient is written (`Format.nearest_mul_right`).

Integers up to `2^53` in size are doubles (`Double.ofInt_eq_fin`).  So doubles that stand for
integers are added, multiplied and compared as integers, and only the result is rounded to the
nearest double.

## What is here

* `Format.nearest_le`, `Format.le_nearest`, `Format.round_mul_right` — rounding.
* `Double.fin_agrees_ofInt_toInt` — a double without a fraction is the integer that it is truncated
  to.
* `Double.add_ofInt`, `Double.mul_ofInt`, `Double.max_ofInt`, … — arithmetic on integers.
* `Double.trunc_div_ofInt` — the integral part of a rounded quotient is that of the exact one.
-/

set_option autoImplicit false

namespace LanePadding
namespace Number

/-! ## Nearest quotients -/

theorem divNearest_le_of_le {n d c : Nat} (h : n ≤ c * d) : divNearest n d ≤ c := by
  rcases Nat.eq_zero_or_pos d with rfl | hd
  · obtain rfl : n = 0 := by omega
    simp [divNearest]
  · rcases Nat.lt_or_eq_of_le (Nat.div_le_of_le_mul (Nat.mul_comm c d ▸ h)) with hlt | heq
    · exact Nat.le_trans (divNearest_le n d) hlt
    · have hn : n = c * d := Nat.le_antisymm h (heq ▸ Nat.div_mul_le_self n d)
      rw [hn, divNearest_mul c d hd]

theorem le_divNearest_of_le {n d c : Nat} (hd : 0 < d) (h : c * d ≤ n) : c ≤ divNearest n d :=
  Nat.le_trans ((Nat.le_div_iff_mul_le hd).2 h) (div_le_divNearest n d)

theorem divNearest_mul_right (n d : Nat) {k : Nat} (hk : 0 < k) :
    divNearest (n * k) (d * k) = divNearest n d := by
  have hleft : 2 * (n % d * k) < d * k ↔ 2 * (n % d) < d := by
    rw [← Nat.mul_assoc, Nat.mul_lt_mul_right hk]
  have hright : d * k < 2 * (n % d * k) ↔ d < 2 * (n % d) := by
    rw [← Nat.mul_assoc, Nat.mul_lt_mul_right hk]
  simp only [divNearest, Nat.mul_mod_mul_right, Nat.mul_div_mul_right _ _ hk, hleft, hright]

/-! ## Formats -/

namespace Format

variable {f : Format} {m n d : Nat}

theorem spacing_mono (f : Format) (h : m ≤ n) : f.spacing m ≤ f.spacing n := by
  have hlog : m.log2 ≤ n.log2 := by
    rw [Nat.log2_eq_log_two, Nat.log2_eq_log_two]
    exact Nat.log_mono_right h
  unfold spacing
  omega

/-- **Rounding does not go up past a number of the format.** -/
theorem nearest_le (hm : twoPow (f.spacing m) ∣ m) (h : n ≤ m * d) : f.nearest n d ≤ m := by
  have hspacing : f.spacing (n / d) ≤ f.spacing m :=
    f.spacing_mono (Nat.div_le_of_le_mul (Nat.mul_comm m d ▸ h))
  obtain ⟨c, hc⟩ : twoPow (f.spacing (n / d)) ∣ m := Nat.dvd_trans (Nat.pow_dvd_pow 2 hspacing) hm
  rw [nearest]
  generalize twoPow (f.spacing (n / d)) = unit at hc
  have hle : divNearest n (d * unit) ≤ c := divNearest_le_of_le (by rw [hc] at h; linarith)
  calc divNearest n (d * unit) * unit ≤ c * unit := Nat.mul_le_mul_right unit hle
    _ = m := by rw [hc, Nat.mul_comm]

/-- A multiple of the spacing at the quotient is not crossed downwards. -/
theorem le_nearest_of_dvd (hd : 0 < d) (hm : twoPow (f.spacing (n / d)) ∣ m) (h : m * d ≤ n) :
    m ≤ f.nearest n d := by
  have hpos : 0 < twoPow (f.spacing (n / d)) := Nat.two_pow_pos _
  rw [nearest]
  generalize twoPow (f.spacing (n / d)) = unit at hm hpos
  obtain ⟨c, rfl⟩ := hm
  have hle : c ≤ divNearest n (d * unit) := le_divNearest_of_le (Nat.mul_pos hd hpos) (by linarith)
  rw [Nat.mul_comm]
  exact Nat.mul_le_mul_right unit hle

/-- Where the spacing grows, there is a number of the format in between, a power of two. -/
theorem exists_between_of_spacing_lt (hp : 0 < f.precision) (h : f.spacing m < f.spacing n) :
    ∃ p, m < p ∧ p ≤ n ∧ f.spacing p = f.spacing n ∧ twoPow (f.spacing n) ∣ p := by
  have hne : n ≠ 0 := by
    rintro rfl
    simp only [spacing, Nat.log2_zero] at h
    omega
  have hpower : f.spacing n ≤ n.log2 := by
    unfold spacing at h ⊢
    omega
  refine ⟨twoPow n.log2, ?_, Nat.log2_self_le hne, ?_, Nat.pow_dvd_pow 2 hpower⟩
  · rcases Nat.eq_zero_or_pos m with rfl | hpos
    · exact Nat.two_pow_pos _
    · refine (Nat.log2_lt (Nat.ne_of_gt hpos)).1 ?_
      unfold spacing at h
      omega
  · show max f.finest ((2 ^ n.log2).log2 + 1 - f.precision) = f.spacing n
    rw [Nat.log2_two_pow, spacing]

/-- **Rounding does not go down past a number of the format.** -/
theorem le_nearest (hp : 0 < f.precision) (hd : 0 < d) (hm : twoPow (f.spacing m) ∣ m)
    (h : m * d ≤ n) :
    m ≤ f.nearest n d := by
  have hquot : m ≤ n / d := (Nat.le_div_iff_mul_le hd).2 h
  rcases Nat.lt_or_eq_of_le (f.spacing_mono hquot) with hlt | heq
  · obtain ⟨p, hmp, hpn, -, hdvd⟩ := exists_between_of_spacing_lt hp hlt
    exact Nat.le_trans (Nat.le_of_lt hmp)
      (le_nearest_of_dvd hd hdvd ((Nat.le_div_iff_mul_le hd).1 hpn))
  · exact le_nearest_of_dvd hd (heq ▸ hm) h

/-- Rounding depends on the quotient alone. -/
theorem nearest_mul_right (f : Format) (n d : Nat) {k : Nat} (hk : 0 < k) :
    f.nearest (n * k) (d * k) = f.nearest n d := by
  simp only [nearest, Nat.mul_div_mul_right _ _ hk, Nat.mul_right_comm d k,
    divNearest_mul_right _ _ hk]

theorem round_mul_right (f : Format) (s : Bool) (n d : Nat) {k : Nat} (hk : 0 < k) :
    f.round s (n * k) (d * k) = f.round s n d := by
  simp only [round, nearest_mul_right f n d hk]

/-- Rounding depends on the value of the fraction alone. -/
theorem round_congr (f : Format) (s : Bool) {n' d' : Nat} (hd : 0 < d) (hd' : 0 < d')
    (h : n * d' = n' * d) :
    f.round s n d = f.round s n' d' := by
  rw [← f.round_mul_right s n d hd', ← f.round_mul_right s n' d' hd, h, Nat.mul_comm d d']

/-- The sign of a rounded magnitude is the one that it is given. -/
theorem round_not (f : Format) (s : Bool) (n d : Nat) : f.round (!s) n d = (f.round s n d).neg := by
  unfold round
  dsimp only
  split <;> rfl

theorem double_round_of_fits (s : Bool) {q : Nat} (h : Format.double.Fits q) :
    Format.double.round s q 1 = .fin s q h := by
  have hround : (Double.fin s q h).roundTo .double = .fin s q h := Double.roundTo_of_holds (.fin h)
  rwa [Double.roundTo] at hround

end Format

/-! ## Integers as doubles -/

/-- Double precision holds what has at most 53 bits, unless it is too large. -/
theorem fits_mul_twoPow {k e : Nat} (hk : k ≤ twoPow 53) (he : 53 + e < 2098) :
    Format.double.Fits (k * twoPow e) := by
  refine ⟨Nat.lt_of_le_of_lt (Nat.mul_le_mul_right _ hk) (twoPow_add 53 e ▸ twoPow_lt he), ?_⟩
  rcases Nat.lt_or_eq_of_le hk with hlt | rfl
  · exact Format.spacing_dvd_of_lt (f := .double) hlt (Nat.zero_le _)
  · exact Format.spacing_dvd_two_pow (f := .double) (by decide) (Nat.zero_le _)

theorem fits_mul_quantaPerUnit {k : Nat} (hk : k ≤ twoPow 53) :
    Format.double.Fits (k * quantaPerUnit) := by
  rw [quantaPerUnit_eq]
  exact fits_mul_twoPow hk (by decide)

/-- Double precision, as if it had no largest number, holds the powers of two. -/
theorem spacing_dvd_twoPow {e : Nat} (he : 53 ≤ e) :
    twoPow (Format.double.spacing (twoPow e)) ∣ twoPow e := by
  obtain ⟨l, rfl⟩ := Nat.exists_eq_add_of_le he
  rw [twoPow_add]
  exact Format.spacing_dvd_two_pow (f := .double) (by decide) (Nat.zero_le _)

/-- A quotient past the largest double is rounded to the infinity. -/
theorem round_eq_inf (s : Bool) {n d : Nat} (hd : 0 < d) (h : twoPow Format.double.limit * d ≤ n) :
    Format.double.round s n d = .inf s := by
  have hle : twoPow Format.double.limit ≤ Format.double.nearest n d :=
    Format.le_nearest (by decide) hd (spacing_dvd_twoPow (by decide)) h
  unfold Format.round
  dsimp only
  rw [dif_neg fun hlt => Nat.not_le.2 hlt.1 hle]

namespace Double

variable {x y : Double} {a b z : Int}

theorem ofInt_zero : ofInt 0 = signedZero false := by
  rw [ofInt, Int.natAbs_zero, Nat.zero_mul, Format.round_zero]
  rfl

/-- A rounded magnitude is that of an integer, whatever the sign of a zero. -/
theorem round_agrees_ofInt {s : Bool} (h : z ≠ 0 → s = decide (z < 0)) :
    (Format.double.round s (z.natAbs * quantaPerUnit) 1).Agrees (ofInt z) := by
  by_cases hz : z = 0
  · rw [hz, Int.natAbs_zero, Nat.zero_mul, Format.round_zero, ofInt_zero]
    exact agrees_signedZero _ _
  · rw [h hz]
    exact .refl _

theorem ofInt_eq_fin (hz : z.natAbs ≤ twoPow 53) :
    ofInt z = .fin (z < 0) (z.natAbs * quantaPerUnit) (fits_mul_quantaPerUnit hz) :=
  Format.double_round_of_fits _ _

theorem isNaN_round (f : Format) (s : Bool) (n d : Nat) : (f.round s n d).isNaN = false := by
  unfold Format.round
  dsimp only
  split <;> rfl

theorem isNaN_ofInt (z : Int) : (ofInt z).isNaN = false := isNaN_round _ _ _ _

theorem key_ofInt (hz : z.natAbs ≤ twoPow 53) : (ofInt z).key = z * quantaPerUnit := by
  rw [ofInt_eq_fin hz]
  simp only [key, decide_eq_true_eq, Nat.cast_mul]
  split
  · rw [← neg_mul]
    congr 1
    omega
  · congr 1
    omega

/-- Only zero is rounded to zero. -/
theorem isZero_ofInt (hz : z ≠ 0) : (ofInt z).isZero = false := by
  have hfits : Format.double.Fits (1 * quantaPerUnit) := fits_mul_quantaPerUnit (by decide)
  have hle : 1 * quantaPerUnit ≤ Format.double.nearest (z.natAbs * quantaPerUnit) 1 := by
    refine Format.le_nearest (by decide) Nat.one_pos hfits.2 ?_
    rw [Nat.mul_one]
    exact Nat.mul_le_mul_right _ (Int.natAbs_pos.2 hz)
  have hpos := quantaPerUnit_pos
  unfold ofInt Format.round
  dsimp only
  split
  · exact beq_eq_false_iff_ne.2 (by omega)
  · rfl

/-- A number without a fraction is the integer that it is truncated to. -/
theorem fin_agrees_ofInt_toInt (s : Bool) {q : Nat} (hq : Format.double.Fits q)
    (h : quantaPerUnit ∣ q) :
    (fin s q hq).Agrees (ofInt (fin s q hq).toInt) := by
  have hmagnitude : (fin s q hq).toInt.natAbs * quantaPerUnit = q := by
    have habs : (fin s q hq).toInt.natAbs = q / quantaPerUnit := by
      cases s <;> simp only [toInt, Bool.false_eq_true, if_false, if_true, Int.natAbs_neg,
        Int.natAbs_natCast]
    rw [habs, Nat.div_mul_cancel h]
  have hsign : (fin s q hq).toInt ≠ 0 → s = decide ((fin s q hq).toInt < 0) := by
    rw [toInt]
    generalize q / quantaPerUnit = k
    cases s
    · simp
    · simp; omega
  have hround := round_agrees_ofInt hsign
  simp only [hmagnitude] at hround
  rwa [Format.double_round_of_fits s hq] at hround

theorem neg_ofInt (z : Int) : (ofInt z).neg.Agrees (ofInt (-z)) := by
  rw [ofInt, ← Format.round_not, ← Int.natAbs_neg]
  refine round_agrees_ofInt fun hz => ?_
  simp only [← decide_not, decide_eq_decide]
  omega

/-! ## Arithmetic on integers -/

/-- Integers are added as such, and the sum is rounded. -/
theorem add_ofInt (ha : a.natAbs ≤ twoPow 53) (hb : b.natAbs ≤ twoPow 53) :
    ((ofInt a).add (ofInt b)).Agrees (ofInt (a + b)) := by
  have hsum : (ofInt a).key + (ofInt b).key = (a + b) * quantaPerUnit := by
    rw [key_ofInt ha, key_ofInt hb, add_mul]
  have hpos : (0 : Int) < quantaPerUnit := Int.natCast_pos.2 quantaPerUnit_pos
  rw [ofInt_eq_fin ha, ofInt_eq_fin hb] at hsum ⊢
  simp only [add, addIn, hsum]
  split
  · rename_i h
    obtain h : a + b = 0 := (mul_eq_zero.1 h).resolve_right hpos.ne'
    rw [h, Format.round_zero, ofInt_zero]
    exact agrees_signedZero _ _
  · rw [Int.natAbs_mul, Int.natAbs_natCast]
    refine round_agrees_ofInt fun _ => ?_
    rw [decide_eq_decide]
    exact ⟨fun h => neg_of_mul_neg_left h hpos.le, fun h => mul_neg_of_neg_of_pos h hpos⟩

theorem sub_ofInt (ha : a.natAbs ≤ twoPow 53) (hb : b.natAbs ≤ twoPow 53) :
    ((ofInt a).sub (ofInt b)).Agrees (ofInt (a - b)) := by
  have hneg : (-b).natAbs ≤ twoPow 53 := by rwa [Int.natAbs_neg]
  rw [Int.sub_eq_add_neg]
  exact (Agrees.addIn .double (.refl (ofInt a)) (neg_ofInt b)).trans (add_ofInt ha hneg)

/-- Integers are multiplied as such, and the product is rounded. -/
theorem mul_ofInt (ha : a.natAbs ≤ twoPow 53) (hb : b.natAbs ≤ twoPow 53) :
    ((ofInt a).mul (ofInt b)).Agrees (ofInt (a * b)) := by
  have hmagnitude : a.natAbs * quantaPerUnit * (b.natAbs * quantaPerUnit) =
      (a * b).natAbs * quantaPerUnit * quantaPerUnit := by
    rw [Int.natAbs_mul]
    ring
  have hround := Format.round_mul_right .double (decide (a < 0) != decide (b < 0))
    ((a * b).natAbs * quantaPerUnit) 1 quantaPerUnit_pos
  rw [Nat.one_mul] at hround
  rw [ofInt_eq_fin ha, ofInt_eq_fin hb]
  simp only [mul, mulIn, hmagnitude, hround]
  refine round_agrees_ofInt fun hne => ?_
  obtain ⟨ha0, hb0⟩ := mul_ne_zero_iff.1 hne
  rcases Int.lt_or_gt_of_ne ha0 with ha0 | ha0 <;> rcases Int.lt_or_gt_of_ne hb0 with hb0 | hb0
  · have := mul_pos_of_neg_of_neg ha0 hb0
    grind
  · have := mul_neg_of_neg_of_pos ha0 hb0
    grind
  · have := mul_neg_of_pos_of_neg ha0 hb0
    grind
  · have := mul_pos ha0 hb0
    grind

theorem max_ofInt (ha : a.natAbs ≤ twoPow 53) (hb : b.natAbs ≤ twoPow 53) :
    ((ofInt a).max (ofInt b)).Agrees (ofInt (Max.max a b)) := by
  obtain ⟨hnumber, hkey⟩ := max_key (isNaN_ofInt a) (isNaN_ofInt b)
  refine agrees_of_key_eq hnumber (isNaN_ofInt _) ?_
  rw [hkey, key_ofInt ha, key_ofInt hb, key_ofInt (by omega),
    max_mul_of_nonneg _ _ (Int.natCast_nonneg quantaPerUnit)]

theorem min_ofInt (ha : a.natAbs ≤ twoPow 53) (hb : b.natAbs ≤ twoPow 53) :
    ((ofInt a).min (ofInt b)).Agrees (ofInt (Min.min a b)) := by
  have hmax : ((ofInt a).neg.max (ofInt b).neg).Agrees (ofInt (Max.max (-a) (-b))) :=
    ((neg_ofInt a).max (neg_ofInt b)).trans
      (max_ofInt (by rwa [Int.natAbs_neg]) (by rwa [Int.natAbs_neg]))
  rw [min_eq_neg_max]
  refine (hmax.neg.trans (neg_ofInt _)).trans (.inl (congrArg ofInt ?_))
  omega

/-! ## Quotients of integers

A quotient that is no integer keeps a distance of `1 / y` from the next one, which is more than
rounding bridges as long as dividend and divisor together have fewer bits than double precision. -/

/-- Between a quotient and the next integer there is another number of double precision. -/
theorem nearest_lt_succ_div {m n : Nat} (hn : 0 < n) (hbits : m + n ≤ twoPow 51) :
    Format.double.nearest (m * quantaPerUnit) n < (m / n + 1) * quantaPerUnit := by
  -- with `2^e` just above the divisor, the number that is `2^-e` below the integer
  obtain ⟨e, hlow, hhigh⟩ : ∃ e, n ≤ twoPow e ∧ twoPow e ≤ 2 * n := by
    refine ⟨n.log2 + 1, Nat.lt_log2_self.le, ?_⟩
    calc 2 ^ (n.log2 + 1) = 2 * 2 ^ n.log2 := Nat.pow_succ'
      _ ≤ 2 * n := Nat.mul_le_mul_left 2 (Nat.log2_self_le hn.ne')
  have hsize : (m / n + 1) * twoPow e ≤ twoPow 52 := by
    have hdiv : m / n * n ≤ m := Nat.div_mul_le_self m n
    calc (m / n + 1) * twoPow e ≤ (m / n + 1) * (2 * n) := Nat.mul_le_mul_left _ hhigh
      _ = 2 * (m / n * n + n) := by ring
      _ ≤ 2 * twoPow 51 := by omega
  have he : e ≤ 52 :=
    (Nat.pow_le_pow_iff_right (by decide)).1
      (Nat.le_trans (Nat.le_mul_of_pos_left _ (Nat.succ_pos _)) hsize)
  have hunit : quantaPerUnit = twoPow e * twoPow (1074 - e) := by
    rw [quantaPerUnit_eq]
    rw [← twoPow_add, Nat.add_sub_cancel' (by omega)]
  have hnext : m * twoPow e + n ≤ (m / n + 1) * twoPow e * n :=
    calc m * twoPow e + n ≤ m * twoPow e + twoPow e := Nat.add_le_add_left hlow _
      _ = (m + 1) * twoPow e := (Nat.succ_mul _ _).symm
      _ ≤ (m / n + 1) * n * twoPow e :=
      Nat.mul_le_mul_right _ (Nat.lt_mul_of_div_lt (Nat.lt_succ_self _) hn)
      _ = (m / n + 1) * twoPow e * n := Nat.mul_right_comm _ _ _
  obtain ⟨c, hc⟩ : ∃ c, (m / n + 1) * twoPow e = c + 1 :=
    Nat.exists_eq_add_one_of_ne_zero (Nat.mul_ne_zero (Nat.succ_ne_zero _) (Nat.two_pow_pos e).ne')
  have hle : Format.double.nearest (m * quantaPerUnit) n ≤ c * twoPow (1074 - e) := by
    refine Format.nearest_le (Format.spacing_dvd_of_lt (f := .double) ?_ (Nat.zero_le _)) ?_
    · exact Nat.lt_of_lt_of_le (hc ▸ Nat.lt_succ_self c)
        (Nat.le_trans hsize (twoPow_lt (by decide)).le)
    · rw [hc] at hnext
      calc m * quantaPerUnit = m * twoPow e * twoPow (1074 - e) := by rw [hunit, Nat.mul_assoc]
        _ ≤ c * n * twoPow (1074 - e) := Nat.mul_le_mul_right _ (by linarith)
        _ = c * twoPow (1074 - e) * n := Nat.mul_right_comm _ _ _
  calc Format.double.nearest (m * quantaPerUnit) n ≤ c * twoPow (1074 - e) := hle
    _ < (c + 1) * twoPow (1074 - e) :=
    Nat.mul_lt_mul_of_pos_right (Nat.lt_succ_self c) (Nat.two_pow_pos _)
    _ = (m / n + 1) * quantaPerUnit := by rw [← hc, hunit, Nat.mul_assoc]

/-- **Rounding keeps the integral part of a quotient.** -/
theorem nearest_div_quantaPerUnit {m n : Nat} (hn : 0 < n) (hbits : m + n ≤ twoPow 51) :
    Format.double.nearest (m * quantaPerUnit) n / quantaPerUnit = m / n := by
  have hfits : Format.double.Fits (m / n * quantaPerUnit) := by
    refine fits_mul_quantaPerUnit (Nat.le_trans (Nat.div_le_self m n) ?_)
    have : twoPow 51 ≤ twoPow 53 := by decide
    omega
  have hle : m / n * quantaPerUnit ≤ Format.double.nearest (m * quantaPerUnit) n := by
    refine Format.le_nearest (by decide) hn hfits.2 ?_
    rw [Nat.mul_right_comm]
    exact Nat.mul_le_mul_right _ (Nat.div_mul_le_self m n)
  exact Nat.div_eq_of_lt_le hle (nearest_lt_succ_div hn hbits)

/-- The integral part of a rounded quotient of integers is that of the exact one. -/
theorem trunc_div_ofInt (hb : b ≠ 0) (hbits : a.natAbs + b.natAbs ≤ twoPow 51) :
    ((ofInt a).div (ofInt b)).trunc.Agrees (ofInt (a.tdiv b)) := by
  have hwide : twoPow 51 ≤ twoPow 53 := by decide
  have hpos : 0 < b.natAbs := Int.natAbs_pos.2 hb
  have hround := Format.round_mul_right .double (decide (a < 0) != decide (b < 0))
    (a.natAbs * quantaPerUnit) b.natAbs quantaPerUnit_pos
  have hlimit : Format.double.nearest (a.natAbs * quantaPerUnit) b.natAbs <
      twoPow Format.double.limit := by
    have hquot := Nat.div_le_self a.natAbs b.natAbs
    exact Nat.lt_trans (nearest_lt_succ_div hpos hbits) (fits_mul_quantaPerUnit (by omega)).1
  have hfits : Format.double.Fits (a.natAbs / b.natAbs * quantaPerUnit) :=
    fits_mul_quantaPerUnit (Nat.le_trans (Nat.div_le_self _ _) (by omega))
  rw [ofInt_eq_fin (by omega), ofInt_eq_fin (by omega)]
  simp only [div, divIn, Nat.mul_ne_zero hpos.ne' quantaPerUnit_pos.ne', if_false, hround]
  rw [Format.round_eq_fin hlimit (Format.fits_nearest (by decide) hlimit)]
  simp only [trunc, nearest_div_quantaPerUnit hpos hbits, ofQuanta, dif_pos hfits]
  rw [← Format.double_round_of_fits, show a.natAbs / b.natAbs = _ from (Int.natAbs_tdiv a b).symm]
  refine round_agrees_ofInt fun hne => ?_
  have ha : a ≠ 0 := fun h => hne (by rw [h, Int.zero_tdiv])
  rcases Int.lt_or_gt_of_ne ha with ha | ha <;> rcases Int.lt_or_gt_of_ne hb with hb | hb
  · have := Int.tdiv_nonneg_of_nonpos_of_nonpos ha.le hb.le
    grind
  · have := Int.tdiv_nonneg (Int.neg_nonneg_of_nonpos ha.le) hb.le
    rw [Int.neg_tdiv] at this
    grind
  · have := Int.tdiv_nonpos_of_nonneg_of_nonpos ha.le hb.le
    grind
  · have := Int.tdiv_nonneg ha.le hb.le
    grind

end Double
end Number
end LanePadding
