import LanePadding.Number.Decimal
import LanePadding.Proofs.NearestNumber

/-!
# Decimals and the doubles nearest to them

A decimal is rounded by its value alone: trailing zeros of the coefficient can be moved into the
exponent and back (`Decimal.toDouble_shift`).  So the shortest digits of a double, with the zeros
stripped off, are still rounded to that double (`Decimal.toDouble_shortest`), whichever of the
candidates the search stopped at.

How large the exponent of a decimal can be does not have to be read off the search either.  A
decimal whose first digit stands past the range of double precision would overflow or be rounded to
zero (`Decimal.leading_bounds`).
-/

set_option autoImplicit false

namespace LanePadding
namespace Number

/-! ## Powers of ten -/

theorem tenPow_zero : tenPow 0 = 1 := rfl

theorem tenPow_pos (n : Nat) : 0 < tenPow n := Nat.pow_pos (by decide)

theorem tenPow_add (m n : Nat) : tenPow (m + n) = tenPow m * tenPow n := Nat.pow_add 10 m n

theorem tenPow_le {m n : Nat} (h : m ≤ n) :
    tenPow m ≤ tenPow n := Nat.pow_le_pow_right (by decide) h

theorem twoPow_le_tenPow (n : Nat) : twoPow n ≤ tenPow n := Nat.pow_le_pow_left (by decide) n

namespace Decimal

variable {s : Bool} {q : Nat}

/-- The rounded value, with the power of ten above or below the line. -/
theorem toDouble_eq (s : Bool) (c : Nat) (e : Int) :
    toDouble s ⟨c, e⟩ = Format.double.round s (c * tenPow e.toNat * quantaPerUnit)
      (tenPow (-e).toNat) := by
  unfold toDouble
  dsimp only
  split
  · rename_i he
    rw [show (-e).toNat = 0 by omega]
  · rename_i he
    rw [show e.toNat = 0 by omega, tenPow_zero, Nat.mul_one]

/-- Zeros can be moved from the exponent into the coefficient. -/
theorem toDouble_shift (s : Bool) (c : Nat) (e : Int) (n : Nat) :
    toDouble s ⟨c * tenPow n, e - n⟩ = toDouble s ⟨c, e⟩ := by
  rw [toDouble_eq, toDouble_eq]
  refine Format.double.round_congr s (tenPow_pos _) (tenPow_pos _) ?_
  have hexponents : n + (e - n).toNat + (-e).toNat = e.toNat + (-(e - n)).toNat := by omega
  calc c * tenPow n * tenPow (e - n).toNat * quantaPerUnit * tenPow (-e).toNat
      = c * (tenPow n * tenPow (e - n).toNat * tenPow (-e).toNat) * quantaPerUnit := by ring
    _ = c * (tenPow e.toNat * tenPow (-(e - n)).toNat) * quantaPerUnit := by
      rw [← tenPow_add, ← tenPow_add, hexponents, tenPow_add]
    _ = c * tenPow e.toNat * quantaPerUnit * tenPow (-(e - n)).toNat := by ring

theorem toDouble_strip (s : Bool) (d : Decimal) : d.strip.toDouble s = d.toDouble s := by
  fun_induction strip d with
  | case1 d hzero => rfl
  | case2 d hzero hlast ih =>
    rw [ih, ← toDouble_shift s (d.coefficient / 10) (d.exponent + 1) 1]
    have hcoefficient : d.coefficient / 10 * tenPow 1 = d.coefficient := by
      rw [show tenPow 1 = 10 from rfl]
      omega
    have hexponent : d.exponent + 1 - (1 : Nat) = d.exponent := by omega
    rw [hcoefficient, hexponent]
  | case3 d hzero hlast => rfl

/-- A number of quanta of `2^-n` written out with `n` decimals. -/
theorem toDouble_of_quanta (s : Bool) (q : Nat) {n : Nat} (hn : quantaPerUnit = twoPow n) :
    toDouble s ⟨q * Nat.pow 5 n, -n⟩ = Format.double.round s q 1 := by
  have hpowers : Nat.pow 5 n * twoPow n = tenPow n := (Nat.mul_pow 5 2 n).symm
  rw [toDouble_eq, hn]
  refine Format.double.round_congr s (tenPow_pos _) Nat.one_pos ?_
  rw [show (-(n : Int)).toNat = 0 by omega, show (-(-(n : Int))).toNat = n by omega,
    ← hpowers, tenPow_zero, Nat.mul_one, Nat.mul_one, Nat.mul_assoc]

theorem toDouble_exact (s : Bool) (q : Nat) : (exact q).toDouble s = Format.double.round s q 1 :=
  toDouble_of_quanta s q quantaPerUnit_eq

theorem toDouble_not (s : Bool) (d : Decimal) : d.toDouble (!s) = (d.toDouble s).neg := by
  rw [toDouble_eq, toDouble_eq, Format.round_not]

/-- **The shortest digits are rounded to the number that they were found for.** -/
theorem toDouble_shortest (s : Bool) (hq : Format.double.Fits q) :
    (shortest q).toDouble s = .fin s q hq := by
  have hpositive : (shortest q).toDouble false = .fin false q hq := by
    rw [shortest, toDouble_strip]
    generalize hfound : List.find? _ _ = found
    cases found with
    | none => rw [Option.getD_none, toDouble_exact, Format.double_round_of_fits]
    | some d =>
      have hd := List.find?_some hfound
      rw [decide_eq_true_eq] at hd
      rw [Option.getD_some, hd, Double.ofQuanta, dif_pos hq]
  cases s with
  | false => exact hpositive
  | true =>
    rw [← Bool.not_false, toDouble_not, hpositive]
    rfl

/-! ## The range of exponents -/

/-- The number of digits of a coefficient. -/
def digitCount (c : Nat) : Nat := (Nat.toDigits 10 c).length

theorem digitCount_pos (c : Nat) : 0 < digitCount c := Nat.length_toDigits_pos

theorem lt_tenPow_digitCount (c : Nat) : c < tenPow (digitCount c) :=
  (Nat.length_toDigits_le_iff (by decide) (digitCount_pos c)).1 (Nat.le_refl _)

theorem tenPow_digitCount_le {c : Nat} (hc : c ≠ 0) : tenPow (digitCount c - 1) ≤ c := by
  rcases Nat.eq_zero_or_pos (digitCount c - 1) with hone | hmore
  · rw [hone]
    exact Nat.pos_of_ne_zero hc
  · have hlong : ¬ digitCount c ≤ digitCount c - 1 := by omega
    exact Nat.le_of_not_lt (mt (Nat.length_toDigits_le_iff (by decide) hmore).2 hlong)

theorem quantaPerUnit_le_tenPow : quantaPerUnit ≤ tenPow 1074 := by
  rw [quantaPerUnit_eq]
  exact twoPow_le_tenPow _

/-- Less than half a quantum is rounded to zero. -/
theorem nearest_eq_zero {n d : Nat} (h : 2 * n < d) : Format.double.nearest n d = 0 := by
  have hdiv : n / d = 0 := Nat.div_eq_of_lt (by omega)
  have hmod : n % d = n := Nat.mod_eq_of_lt (by omega)
  have hunit : twoPow (Format.double.spacing 0) = 1 := by decide
  simp only [Format.nearest, hunit, Nat.mul_one, divNearest, hmod, hdiv, if_pos h]

theorem nearest_of_round_eq {f : Format} {n d : Nat} {hq : Format.double.Fits q}
    (h : f.round s n d = .fin s q hq) :
    f.nearest n d = q := by
  unfold Format.round at h
  dsimp only at h
  split at h
  · exact (Double.fin.inj h).2
  · cases h

/-- **A decimal that is rounded to a positive finite number has its first digit in the range of
double precision**, by a rough count of the digits. -/
theorem leading_bounds {d : Decimal} {hq : Format.double.Fits q} (h : d.toDouble s = .fin s q hq)
    (hne : q ≠ 0) :
    -1075 < d.exponent + digitCount d.coefficient ∧
      d.exponent + digitCount d.coefficient < 2099 := by
  obtain ⟨c, e⟩ := d
  dsimp only
  rw [toDouble_eq] at h
  have hnearest := nearest_of_round_eq h
  have hc : c ≠ 0 := by
    rintro rfl
    rw [Nat.zero_mul, Nat.zero_mul, Format.nearest_zero] at hnearest
    exact hne hnearest.symm
  have hlow := tenPow_digitCount_le hc
  have hhigh := lt_tenPow_digitCount c
  have hpos := digitCount_pos c
  obtain ⟨k, hk, hunit⟩ : ∃ k, k = 1074 ∧ quantaPerUnit ≤ tenPow k :=
    ⟨1074, rfl, quantaPerUnit_le_tenPow⟩
  obtain ⟨l, hl, hlimit⟩ : ∃ l, l = 2098 ∧ twoPow Format.double.limit ≤ tenPow l := 
    ⟨Format.double.limit, rfl, twoPow_le_tenPow _⟩
  constructor
  · -- otherwise it is less than half a quantum
    by_contra hsmall
    have hexponents : 1 + (digitCount c + e.toNat + k) ≤ (-e).toNat := by omega
    have hlt : 2 * (c * tenPow e.toNat * quantaPerUnit) < tenPow (-e).toNat :=
      calc 2 * (c * tenPow e.toNat * quantaPerUnit)
          < 2 * (tenPow (digitCount c) * tenPow e.toNat * quantaPerUnit) :=
            Nat.mul_lt_mul_of_pos_left (Nat.mul_lt_mul_of_pos_right
              (Nat.mul_lt_mul_of_pos_right hhigh (tenPow_pos _)) quantaPerUnit_pos) (by decide)
        _ ≤ tenPow 1 * (tenPow (digitCount c) * tenPow e.toNat * tenPow k) :=
            Nat.mul_le_mul (by decide) (Nat.mul_le_mul_left _ hunit)
        _ = tenPow (1 + (digitCount c + e.toNat + k)) := by rw [tenPow_add, tenPow_add, tenPow_add]
        _ ≤ tenPow (-e).toNat := tenPow_le hexponents
    exact hne (hnearest ▸ nearest_eq_zero hlt)
  · -- otherwise it is rounded past the largest number
    by_contra hlarge
    have hexponents : l + (-e).toNat ≤ digitCount c - 1 + e.toNat := by omega
    have hle : twoPow Format.double.limit * tenPow (-e).toNat ≤
        c * tenPow e.toNat * quantaPerUnit :=
      calc twoPow Format.double.limit * tenPow (-e).toNat
          ≤ tenPow l * tenPow (-e).toNat := Nat.mul_le_mul_right _ hlimit
        _ = tenPow (l + (-e).toNat) := (tenPow_add _ _).symm
        _ ≤ tenPow (digitCount c - 1 + e.toNat) := tenPow_le hexponents
        _ = tenPow (digitCount c - 1) * tenPow e.toNat := tenPow_add _ _
        _ ≤ c * tenPow e.toNat := Nat.mul_le_mul_right _ hlow
        _ ≤ c * tenPow e.toNat * quantaPerUnit := Nat.le_mul_of_pos_right _ quantaPerUnit_pos
    rw [round_eq_inf s (tenPow_pos _) hle] at h
    cases h

end Decimal
end Number
end LanePadding
