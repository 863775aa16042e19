import Mathlib.Algebra.Order.Ring.Abs
import LanePadding.Proofs.IntegerArithmetic

/-!
# Reducing copies of one value

A reduction of many copies of one value is not computed copy by copy: a sum is one product, a
product is one power.  Combining one copy after the other saturates at every step instead.  For the
booleans and the integer types of up to 32 bits both give the same value
(`Scalar.evalReduceRepeated_eq_combineCopies`).

After any number of copies there is the exact sum or power, clamped to the range.  A step keeps
this, since clamping loses only how far a partial result lies outside of the range, and the next
step does not bring it back: sums of copies move away from zero, and so do the sizes of powers,
unless the base is zero or a unit (`DType.StoresShort.saturate_add`,
`DType.StoresShort.saturate_mul`).  Powers of a negative base change sides at every step, and both
sides are saturated alike because the range is almost symmetric.

## What is here

* `powMagnitude_mul_quantaPerUnit`, `Double.powInt_ofInt` — powers of integers are correctly
  rounded.
* `Scalar.combineCopies` — copies combined one by one, from the left.
* `Scalar.exists_combineCopies` — what they give.
-/

set_option autoImplicit false

namespace LanePadding
namespace Number

/-! ## Powers -/

theorem twoPow_mul (m n : Nat) : twoPow (m * n) = twoPow m ^ n := Nat.pow_mul ..

theorem twoPow_succ (n : Nat) : twoPow (n + 1) = 2 * twoPow n := Nat.pow_succ'

theorem oddPart_two_mul {n : Nat} (hn : n ≠ 0) :
    oddPart (2 * n) = ((oddPart n).1, (oddPart n).2 + 1) := by
  rw [oddPart, if_neg (by omega), if_neg (by omega), Nat.mul_div_cancel_left n (by decide)]

/-- A power of two as a factor only adds zeros at the end. -/
theorem oddPart_mul_twoPow {n : Nat} (hn : n ≠ 0) (e : Nat) :
    oddPart (n * twoPow e) = ((oddPart n).1, (oddPart n).2 + e) := by
  induction e with
  | zero => simp [twoPow]
  | succ e ih =>
    have hne : n * twoPow e ≠ 0 := Nat.mul_ne_zero hn (Nat.two_pow_pos e).ne'
    rw [twoPow_succ, Nat.mul_left_comm, oddPart_two_mul hne, ih]
    rfl

theorem log2_mul_twoPow {n : Nat} (hn : n ≠ 0) (e : Nat) : (n * twoPow e).log2 = n.log2 + e := by
  induction e with
  | zero => rw [Nat.add_zero, twoPow, show Nat.pow 2 0 = 1 from rfl, Nat.mul_one]
  | succ e ih =>
    have hne : n * twoPow e ≠ 0 := Nat.mul_ne_zero hn (Nat.two_pow_pos e).ne'
    rw [twoPow_succ, Nat.mul_left_comm, Nat.log2_two_mul hne, ih, Nat.add_assoc]

theorem oddPart_eq (n : Nat) : (oddPart n).1 * twoPow (oddPart n).2 = n := by
  fun_induction oddPart n with
  | case1 => rfl
  | case2 n _ _ => exact Nat.mul_one n
  | case3 n hn hodd m t hpart ih =>
    rw [hpart] at ih
    change m * twoPow (t + 1) = n
    rw [twoPow_succ, Nat.mul_left_comm, ih]
    omega

/-- A power, where the size of the base and the place of its last bit are natural numbers. -/
theorem powMagnitude_eq (s : Bool) {q m t e j n : Nat} (hodd : oddPart q = (m, t))
    (hlog : (q.log2 : Int) - 1074 = e) (hlast : (t : Int) - 1074 = j) :
    powMagnitude s false q n =
      if 1076 ≤ e * n then .inf s
      else if m = 1 ∨ n ≤ 1100 then
        Format.double.round s ((if m = 1 then 1 else m.pow n) * twoPow (n * j + 1074)) (twoPow 0)
      else firstSettled (Approx.settledPower? s false ⟨m, m, j⟩ n) := by
  have hup : (1076 : Int) ≤ (e : Int) * n ↔ 1076 ≤ e * n := by rw [← Nat.cast_mul]; omega
  have hdown : ¬(if m = 1 then (e : Int) else e + 1) * n < -1075 := by
    have : (0 : Int) ≤ (if m = 1 then (e : Int) else e + 1) * n := by positivity
    omega
  have hscale : ((n : Int) * j + 1074).toNat = n * j + 1074 ∧
      (-((n : Int) * j + 1074)).toNat = 0 := by
    rw [← Nat.cast_mul]
    omega
  simp only [powMagnitude, hodd, hlog, hlast, hup, hdown, hscale, Bool.false_eq_true, if_false]

/-- **The power of a whole number is correctly rounded.**  An integer whose power does not overflow
is one, or it is raised to a small exponent, so the power is written out. -/
theorem powMagnitude_mul_quantaPerUnit (s : Bool) {k n : Nat} (hk : k ≠ 0) :
    powMagnitude s false (k * quantaPerUnit) n =
      Format.double.round s (k ^ n * quantaPerUnit) 1 := by
  have hodd : oddPart (k * quantaPerUnit) = ((oddPart k).1, (oddPart k).2 + 1074) := by
    rw [quantaPerUnit_eq, oddPart_mul_twoPow hk]
  have hlog : ((k * quantaPerUnit).log2 : Int) - 1074 = k.log2 := by
    rw [quantaPerUnit_eq, log2_mul_twoPow hk]
    omega
  have hpart := oddPart_eq k
  generalize (oddPart k).1 = m at hodd hpart
  generalize (oddPart k).2 = j at hodd hpart
  rw [powMagnitude_eq s hodd hlog (j := j) (by omega)]
  split
  · rename_i hlarge
    have hpower : twoPow 1076 ≤ k ^ n :=
      calc twoPow 1076 ≤ twoPow (k.log2 * n) := twoPow_le hlarge
        _ = twoPow k.log2 ^ n := twoPow_mul _ _
        _ ≤ k ^ n := Nat.pow_le_pow_left (Nat.log2_self_le hk) n
    have hlimit : twoPow Format.double.limit ≤ twoPow 1076 * quantaPerUnit := by
      rw [twoPow_mul_quantaPerUnit]
      exact twoPow_le (by decide)
    have hle := hlimit.trans (Nat.mul_le_mul_right quantaPerUnit hpower)
    exact (round_eq_inf s Nat.one_pos (by rwa [Nat.mul_one])).symm
  · rename_i hsmall
    have hbase : m = 1 ∨ n ≤ 1100 := by
      by_contra! hlarge
      have hzero : k.log2 = 0 := by
        by_contra hne
        have := Nat.mul_le_mul_right n (Nat.one_le_iff_ne_zero.2 hne)
        omega
      have hone : k < 2 := by
        have := Nat.lt_log2_self (n := k)
        rwa [hzero] at this
      exact hlarge.1 (Nat.eq_one_of_mul_eq_one_right (hpart.trans (by omega)))
    have hpower : (if m = 1 then 1 else m.pow n) = m ^ n := by
      split
      · rename_i hm
        rw [hm, Nat.one_pow]
      · rfl
    have hwhole : m ^ n * twoPow (n * j + 1074) = k ^ n * quantaPerUnit := by
      rw [twoPow_add, ← quantaPerUnit_eq, ← hpart, Nat.mul_pow, Nat.mul_comm n j, twoPow_mul,
        Nat.mul_assoc]
    rw [if_pos hbase, hpower, hwhole]

namespace Double

/-- A power of zero is zero, whatever its sign. -/
theorem Agrees.powInt {x y : Double} {n : Int} (hn : 0 < n) (h : x.Agrees y) :
    (x.powInt n).Agrees (y.powInt n) := by
  refine h.map (f := fun x => x.powInt n) fun s t => ?_
  have hne : n ≠ 0 := by omega
  have hpos : ¬n < 0 := by omega
  simp only [signedZero, Double.powInt, hne, hpos, if_true, if_false, ofQuanta_zero]
  exact agrees_signedZero _ _

/-- The sign of a power. -/
theorem decide_pow_neg {a : Int} (ha : a ≠ 0) (n : Nat) :
    (decide (a < 0) && ((n : Int) % 2 == 1)) = decide (a ^ n < 0) := by
  rcases Int.lt_or_gt_of_ne ha with hneg | hpos
  · rcases Nat.even_or_odd n with heven | hodd
    · have hpow := heven.pow_pos ha
      have hmod : ((n : Int) % 2 == 1) = false := by
        obtain ⟨k, rfl⟩ := heven
        exact beq_eq_false_iff_ne.2 (by omega)
      rw [hmod, Bool.and_false, decide_eq_false hpow.not_gt]
    · have hpow := hodd.pow_neg hneg
      have hmod : ((n : Int) % 2 == 1) = true := by
        obtain ⟨k, rfl⟩ := hodd
        exact beq_iff_eq.2 (by omega)
      rw [hmod, Bool.and_true, decide_eq_true hneg, decide_eq_true hpow]
  · rw [decide_eq_false hpos.not_gt, Bool.false_and, decide_eq_false (pow_pos hpos n).not_gt]

theorem toInt_ofInt {z : Int} (hz : z.natAbs ≤ twoPow 53) : (ofInt z).toInt = z := by
  rw [ofInt_eq_fin hz]
  simp only [toInt, Nat.mul_div_cancel _ quantaPerUnit_pos, decide_eq_true_eq]
  split <;> omega

/-- Powers of integers are correctly rounded. -/
theorem powInt_ofInt {a : Int} {n : Nat} (hn : n ≠ 0) (ha : a.natAbs ≤ twoPow 53) :
    ((ofInt a).powInt n).Agrees (ofInt (a ^ n)) := by
  have hne : (n : Int) ≠ 0 := by omega
  have hpos : ¬(n : Int) < 0 := by omega
  by_cases ha0 : a = 0
  · rw [ha0, zero_pow hn, ofInt_zero]
    simp only [signedZero, powInt, hne, hpos, if_true, if_false, ofQuanta_zero]
    exact agrees_signedZero _ _
  · have hmagnitude : a.natAbs * quantaPerUnit ≠ 0 :=
      Nat.mul_ne_zero (Int.natAbs_ne_zero.2 ha0) quantaPerUnit_pos.ne'
    rw [ofInt_eq_fin ha]
    simp only [powInt, hne, hpos, if_false, hmagnitude, decide_false, Int.natAbs_natCast]
    rw [powMagnitude_mul_quantaPerUnit _ (Int.natAbs_ne_zero.2 ha0), ← Int.natAbs_pow]
    exact round_agrees_ofInt fun _ => decide_pow_neg ha0 n

end Double
end Number

open Number

/-! ## Partial results -/

namespace DType.StoresShort

variable {d : DType} {low high a : Int}

/-- A range with negative numbers has one more of them than it has positive ones. -/
theorem high_eq (h : d.StoresShort low high) (hlow : low < 0) : high = -low - 1 := by
  obtain ⟨hrange, -⟩ := h
  cases d
  all_goals simp only [intRange?, Option.some.injEq, Prod.mk.injEq, reduceCtorEq] at hrange
  all_goals omega

theorem low_eq_zero (h : d.StoresShort low high) (hd : d = .bool) : low = 0 := by
  subst hd
  exact (Prod.mk.inj (Option.some.inj h.range)).1.symm

/-- A sum of copies that has left the range does not come back. -/
theorem saturate_add (h : d.StoresShort low high) (a : Int) (k : Nat) :
    saturate low high (saturate low high (k * a) + a) = saturate low high ((k + 1 : Nat) * a) := by
  have hends := h.low_le_zero
  have hnext : ((k + 1 : Nat) : Int) * a = k * a + a := by
    push_cast
    ring
  have hsign : 0 ≤ a ∧ 0 ≤ k * a ∨ a ≤ 0 ∧ k * a ≤ 0 := by
    rcases le_total 0 a with ha | ha
    · exact .inl ⟨ha, mul_nonneg (Int.natCast_nonneg k) ha⟩
    · exact .inr ⟨ha, mul_nonpos_of_nonneg_of_nonpos (Int.natCast_nonneg k) ha⟩
  rw [hnext]
  generalize (k : Int) * a = z at hsign
  unfold saturate
  omega

theorem saturate_eq_high (h : d.StoresShort low high) {z : Int} (hz : high ≤ z) :
    saturate low high z = high := by
  have hends := h.low_le_zero
  unfold saturate
  omega

theorem saturate_eq_low (h : d.StoresShort low high) {z : Int} (hz : z ≤ low) :
    saturate low high z = low := by
  have hends := h.low_le_zero
  unfold saturate
  omega

/-- Only a base of at least two in size has powers of more than one in size. -/
theorem two_le_of_pow {k : Nat} (h : 1 < a ^ k ∨ a ^ k < -1) : 2 ≤ a ∨ a ≤ -2 := by
  by_contra! hsmall
  have habs : |a ^ k| ≤ 1 := by
    rw [abs_pow]
    exact pow_le_one₀ (abs_nonneg a) (abs_le.2 ⟨by omega, by omega⟩)
  have := abs_le.1 habs
  omega

/-- A power that has left the range does not come back, though it may change sides. -/
theorem saturate_mul (h : d.StoresShort low high) (ha : low ≤ a) (k : Nat) :
    saturate low high (saturate low high (a ^ k) * a) = saturate low high (a ^ (k + 1)) := by
  have hends := h.low_le_zero
  have hsize := two_le_of_pow (a := a) (k := k)
  have hnonneg : 0 ≤ a → 0 ≤ a ^ k := fun ha => pow_nonneg ha k
  rw [pow_succ]
  generalize a ^ k = z at hsize hnonneg
  rcases lt_or_ge high z with habove | hhigh
  · rw [h.saturate_eq_high habove.le]
    rcases hsize (.inl (by omega)) with hpos | hneg
    · rw [h.saturate_eq_high (by nlinarith), h.saturate_eq_high (by nlinarith)]
    · have hsymmetric := h.high_eq (by omega)
      rw [h.saturate_eq_low (by nlinarith), h.saturate_eq_low (by nlinarith)]
  rcases lt_or_ge z low with hbelow | hlow
  · have hneg : a ≤ -2 := by omega
    have hsymmetric := h.high_eq (by omega)
    rw [h.saturate_eq_low hbelow.le, h.saturate_eq_high (by nlinarith),
      h.saturate_eq_high (by nlinarith)]
  · congr 2
    unfold saturate
    omega

end DType.StoresShort

/-! ## Copies of one value -/

namespace ReduceFn

/-- The binary function that a reduction applies again and again. -/
def combiner : ReduceFn → BinaryFn
  | .sum => .add
  | .prod => .mul
  | .max => .max
  | .min => .min

/-- A reduction of `k` copies of an integer. -/
def ofCopies : ReduceFn → Int → Nat → Int
  | .sum, a, k => k * a
  | .prod, a, k => a ^ k
  | .max, a, _ => a
  | .min, a, _ => a

theorem ofCopies_one (fn : ReduceFn) (a : Int) : fn.ofCopies a 1 = a := by
  cases fn <;> simp [ofCopies]

theorem ofCopies_nonneg (fn : ReduceFn) {a : Int} (ha : 0 ≤ a) (k : Nat) : 0 ≤ fn.ofCopies a k := by
  cases fn with
  | sum => exact mul_nonneg (Int.natCast_nonneg k) ha
  | prod => exact pow_nonneg ha k
  | max => exact ha
  | min => exact ha

theorem combiner_nonneg (fn : ReduceFn) {a b : Int} (ha : 0 ≤ a) (hb : 0 ≤ b) :
    0 ≤ fn.combiner.onInts a b := by
  cases fn with
  | sum => exact add_nonneg ha hb
  | prod => exact mul_nonneg ha hb
  | max => exact le_max_of_le_left ha
  | min => exact le_min ha hb

/-- **One more copy.**  It makes no difference that the copies before were clamped to the range. -/
theorem saturate_ofCopies {d : DType} {low high a : Int} (h : d.StoresShort low high)
    (ha : low ≤ a ∧ a ≤ high) (fn : ReduceFn) (k : Nat) :
    DType.saturate low high (fn.combiner.onInts (DType.saturate low high (fn.ofCopies a k)) a) =
      DType.saturate low high (fn.ofCopies a (k + 1)) := by
  cases fn with
  | sum => exact h.saturate_add a k
  | prod => exact h.saturate_mul ha.1 k
  | max | min =>
    simp only [combiner, BinaryFn.onInts, ofCopies, DType.saturate]
    omega

end ReduceFn

namespace Scalar

/-- The copies of `x` combined from the left, each step in the element type of `x`. -/
def combineCopies (fn : BinaryFn) (x : Scalar) (count : Nat) : Except ScalarError Scalar :=
  (List.replicate (count - 1) x).foldlM (evalBinary (.binary fn)) x

theorem combineCopies_succ (fn : BinaryFn) (x : Scalar) (k : Nat) :
    combineCopies fn x (k + 2) =
      (combineCopies fn x (k + 1) >>= fun v => evalBinary (.binary fn) v x) := by
  simp only [combineCopies, Nat.add_sub_cancel, show k + 2 - 1 = k + 1 from rfl,
    List.replicate_succ', List.foldlM_append, List.foldlM_cons, List.foldlM_nil, bind_pure]

variable {d : DType} {low high a : Int} {x : Double}

/-- **Copies combined one by one** give the exact result, clamped to the range. -/
theorem exists_combineCopies (h : d.StoresShort low high) (hx : x.Agrees (.ofInt a))
    (ha : low ≤ a ∧ a ≤ high) (fn : ReduceFn) (k : Nat) :
    ∃ v, combineCopies fn.combiner ⟨d, x⟩ (k + 1) = .ok ⟨d, v⟩ ∧
      v.Agrees (.ofInt (DType.saturate low high (fn.ofCopies a (k + 1)))) := by
  induction k with
  | zero =>
    have hrange : DType.saturate low high a = a := by
      unfold DType.saturate
      omega
    refine ⟨x, rfl, ?_⟩
    rwa [fn.ofCopies_one, hrange]
  | succ k ih =>
    obtain ⟨v, hv, hagrees⟩ := ih
    have hpartial := h.saturate_mem (fn.ofCopies a (k + 1))
    have hbool : d = .bool →
        0 ≤ fn.combiner.onInts (DType.saturate low high (fn.ofCopies a (k + 1))) a := by
      intro hd
      have hlow := h.low_eq_zero hd
      exact fn.combiner_nonneg (by omega) (by omega)
    obtain ⟨u, hu, hstep⟩ := evalBinary_ofInt h hagrees hx hpartial ha
      (fun hdiv => absurd hdiv (by cases fn <;> decide)) hbool
    rw [fn.saturate_ofCopies h ha] at hstep
    rw [combineCopies_succ, hv]
    exact ⟨u, hu, hstep⟩

/-- What is computed at once is the exact result, clamped to the range. -/
theorem exists_evalReduceRepeated (h : d.StoresShort low high) (hx : x.Agrees (.ofInt a))
    (ha : low ≤ a ∧ a ≤ high) (fn : ReduceFn) {k : Nat} (hpos : k ≠ 0) (hk : k ≤ twoPow 53) :
    ∃ u, evalReduceRepeated (.reduce fn) ⟨d, x⟩ k = .ok ⟨d, u⟩ ∧
      u.Agrees (.ofInt (DType.saturate low high (fn.ofCopies a k))) := by
  have hsize : a.natAbs ≤ twoPow 53 := (h.natAbs_le ha).trans (by decide)
  have hcount : ((k : Int).natAbs : Nat) ≤ twoPow 53 := hk
  have hround : ∀ v, ofDouble d v = .ok ⟨d, d.round v⟩ := fun v => if_pos h.isSupported
  have hbool : d = .bool → 0 ≤ fn.ofCopies a k := by
    intro hd
    have hlow := h.low_eq_zero hd
    exact fn.ofCopies_nonneg (by omega) k
  cases fn with
  | sum =>
    have hmul : (x.mul (.ofInt k)).Agrees (.ofInt (ReduceFn.sum.ofCopies a k)) := by
      rw [ReduceFn.ofCopies, mul_comm]
      exact (hx.mulIn _ (.refl _)).trans (Double.mul_ofInt hsize hcount)
    exact ⟨_, hround _, (d.round_agrees hmul).trans (h.round_ofInt hbool)⟩
  | prod =>
    have hpow : (x.powInt (Double.ofInt k).toInt).Agrees (.ofInt (ReduceFn.prod.ofCopies a k)) := by
      rw [Double.toInt_ofInt hcount]
      exact (hx.powInt (by omega)).trans (Double.powInt_ofInt hpos hsize)
    exact ⟨_, hround _, (d.round_agrees hpow).trans (h.round_ofInt hbool)⟩
  | max | min =>
    have hrange : DType.saturate low high a = a := by
      unfold DType.saturate
      omega
    exact ⟨x, rfl, by rwa [ReduceFn.ofCopies, hrange]⟩

/-- **Reducing copies of one value at once is combining them one by one.**  This holds for the
booleans and the integer types of up to 32 bits, although one way saturates once and the other at
every step. -/
theorem evalReduceRepeated_eq_combineCopies (h : d.StoresShort low high) (hx : d.round x = x)
    (fn : ReduceFn) {count : Nat} (hcount : 1 ≤ count ∧ count ≤ twoPow 53) :
    ∃ u v, evalReduceRepeated (.reduce fn) ⟨d, x⟩ count = .ok u ∧
      combineCopies fn.combiner ⟨d, x⟩ count = .ok v ∧ u.equal v = true := by
  obtain ⟨hint, hrange⟩ := h.agrees_toInt hx
  obtain ⟨k, rfl⟩ : ∃ k, count = k + 1 := Nat.exists_eq_add_one_of_ne_zero (by omega)
  obtain ⟨u, hu, huagrees⟩ :=
    exists_evalReduceRepeated h hint hrange fn (Nat.succ_ne_zero k) hcount.2
  obtain ⟨v, hv, hvagrees⟩ := exists_combineCopies h hint hrange fn k
  exact ⟨⟨d, u⟩, ⟨d, v⟩, hu, hv, equal_mk.2 (huagrees.trans hvagrees.symm)⟩

/-- The seventh power of -3 is past the range, and so are two of its partial products, on either
side of it. -/
theorem evalReduceRepeated_eq_combineCopies_powers :
    DType.StoresShort .int8 (-128) 127 ∧ DType.int8.round (.ofInt (-3)) = .ofInt (-3) ∧
    ∃ u v, evalReduceRepeated (.reduce .prod) ⟨.int8, .ofInt (-3)⟩ (7 : Nat) = .ok u ∧
      combineCopies .mul ⟨.int8, .ofInt (-3)⟩ 7 = .ok v ∧ u.equal v = true := by
  have hrange : DType.StoresShort .int8 (-128) 127 := ⟨rfl, by decide⟩
  have hround : DType.int8.round (.ofInt (-3)) = .ofInt (-3) := by decide +kernel
  exact ⟨hrange, hround, evalReduceRepeated_eq_combineCopies hrange hround .prod
    ⟨by decide, by decide⟩⟩

end Scalar
end LanePadding
