import LanePadding.Padding.Transfer

/-!
# Numbers that agree up to the sign of zero

Two scalars are `equal` if they have the same element type and the same number in it; a NaN equals a
NaN, and the zeros of both signs are one number.  Whatever is said about the lanes of a tensor is
said up to this equality, so operators have to respect it.

## What is here

* `Double.Agrees` — the relation on numbers behind `Scalar.equal`: the same double, or two zeros.
* `Scalar.evalUnary_equal`, `Scalar.evalBinary_equal`, `Scalar.evalCompare_eq` — operators respect
  equality.  The exception is division by zero, where the sign of the divisor decides between the
  two infinities: `OpKind.divides` says which operators divide.
* `Double.Holds` — the numbers of a format, which rounding to it answers and leaves as they are.
* `Double.max_agrees_of_le`, `Double.min_agrees_of_le` — a number that another does not go beyond
  absorbs it in a maximum, or in a minimum.
* `Platform.evalReduceRepeated_neutral` — reducing copies of a neutral element gives the neutral
  element.
-/

set_option autoImplicit false

namespace LanePadding
namespace Number

/-! ## Powers of two -/

theorem twoPow_pos (n : Nat) : 0 < twoPow n := Nat.two_pow_pos n

theorem twoPow_add (m n : Nat) : twoPow (m + n) = twoPow m * twoPow n := Nat.pow_add 2 m n

theorem twoPow_le {m n : Nat} (h : m ≤ n) :
    twoPow m ≤ twoPow n := Nat.pow_le_pow_right (by decide) h

theorem twoPow_lt {m n : Nat} (h : m < n) :
    twoPow m < twoPow n := Nat.pow_lt_pow_right (by decide) h

theorem log2_twoPow (n : Nat) : (twoPow n).log2 = n := Nat.log2_two_pow

-- Other tactics would evaluate the power.
theorem quantaPerUnit_eq : quantaPerUnit = twoPow 1074 := by
  delta quantaPerUnit
  rfl

theorem quantaPerUnit_pos : 0 < quantaPerUnit := by
  rw [quantaPerUnit_eq]
  exact twoPow_pos _

theorem twoPow_mul_quantaPerUnit (k : Nat) : twoPow k * quantaPerUnit = twoPow (k + 1074) := by
  rw [quantaPerUnit_eq, twoPow_add]

/-! ## Zeros -/

/-- The zero of the given sign. -/
def Double.signedZero (s : Bool) : Double := .fin s 0 (Format.fits_zero _)

theorem Format.nearest_zero (f : Format) (d : Nat) : f.nearest 0 d = 0 := by
  simp only [Format.nearest, divNearest, Nat.zero_mod, Nat.zero_div]
  split <;> simp

theorem Format.round_zero (f : Format) (s : Bool) (d : Nat) :
    f.round s 0 d = .signedZero s := by
  have hlimit : 0 < twoPow f.limit ∧ Format.double.Fits 0 :=
    ⟨twoPow_pos _, Format.fits_zero _⟩
  simp only [Format.round, Format.nearest_zero, hlimit, and_self, dif_pos]
  rfl

theorem Format.round_eq_fin {f : Format} {s : Bool} {n d : Nat} (h : f.nearest n d < twoPow f.limit)
    (hfits : Format.double.Fits (f.nearest n d)) : f.round s n d = .fin s (f.nearest n d) hfits :=
  dif_pos ⟨h, hfits⟩

namespace Double

theorem isZero_iff {x : Double} : x.isZero = true ↔ ∃ s, x = signedZero s := by
  constructor
  · intro h
    cases x with
    | nan => simp [isZero] at h
    | inf s => simp [isZero] at h
    | fin s q hq =>
      obtain rfl : q = 0 := by simpa [isZero] using h
      exact ⟨s, rfl⟩
  · rintro ⟨s, rfl⟩
    rfl

@[simp] theorem isZero_signedZero (s : Bool) : (signedZero s).isZero = true := rfl

@[simp] theorem isNaN_signedZero (s : Bool) : (signedZero s).isNaN = false := rfl

@[simp] theorem key_signedZero (s : Bool) : (signedZero s).key = 0 := by
  cases s <;> rfl

@[simp] theorem signedZero_ne_inf (s t : Bool) : signedZero s ≠ inf t := by
  simp [signedZero]

theorem ofQuanta_zero (s : Bool) : ofQuanta s 0 = signedZero s :=
  dif_pos (Format.fits_zero _)

/-- A finite number lies strictly between the infinities. -/
theorem key_fin_lt (s : Bool) {q : Nat} (hq : Format.double.Fits q) :
    -(twoPow 2098 : Int) < (fin s q hq).key ∧ (fin s q hq).key < (twoPow 2098 : Int) := by
  have h : (q : Int) < (twoPow Format.double.limit : Int) := Int.ofNat_lt.2 hq.1
  rw [show Format.double.limit = 2098 from rfl] at h
  have h0 : (0 : Int) ≤ (q : Int) := Int.natCast_nonneg q
  cases s <;> simp only [key] <;> constructor <;>
    simp only [Bool.false_eq_true, if_true, if_false] <;>
    omega

/-! ## Agreement -/

/-- The same number, the two zeros being one. -/
def Agrees (x y : Double) : Prop := x = y ∨ (x.isZero = true ∧ y.isZero = true)

theorem Agrees.refl (x : Double) : x.Agrees x := .inl rfl

theorem Agrees.symm {x y : Double} (h : x.Agrees y) : y.Agrees x :=
  h.elim (fun h => .inl h.symm) fun h => .inr h.symm

theorem Agrees.trans {x y z : Double} (h : x.Agrees y) (h' : y.Agrees z) : x.Agrees z := by
  rcases h with rfl | h
  · exact h'
  · rcases h' with rfl | h'
    · exact .inr h
    · exact .inr ⟨h.1, h'.2⟩

theorem agrees_signedZero (s t : Bool) : (signedZero s).Agrees (signedZero t) := .inr ⟨rfl, rfl⟩

theorem Agrees.eq_of_isZero {x y : Double} (h : x.Agrees y) (hx : x.isZero = false) : x = y :=
  h.resolve_right fun h => by simp [hx] at h

theorem Agrees.isZero_eq {x y : Double} (h : x.Agrees y) : x.isZero = y.isZero := by
  rcases h with rfl | ⟨hx, hy⟩
  · rfl
  · rw [hx, hy]

theorem Agrees.isNaN_eq {x y : Double} (h : x.Agrees y) : x.isNaN = y.isNaN := by
  rcases h with rfl | ⟨hx, hy⟩
  · rfl
  · obtain ⟨s, rfl⟩ := isZero_iff.1 hx
    obtain ⟨t, rfl⟩ := isZero_iff.1 hy
    rfl

theorem Agrees.key_eq {x y : Double} (h : x.Agrees y) : x.key = y.key := by
  rcases h with rfl | ⟨hx, hy⟩
  · rfl
  · obtain ⟨s, rfl⟩ := isZero_iff.1 hx
    obtain ⟨t, rfl⟩ := isZero_iff.1 hy
    rw [key_signedZero, key_signedZero]

/-- Numbers with one key agree. -/
theorem agrees_of_key_eq {x y : Double} (hx : x.isNaN = false) (hy : y.isNaN = false)
    (h : x.key = y.key) : x.Agrees y := by
  have hpos : (0 : Int) < (twoPow 2098 : Int) := Int.ofNat_lt.2 (twoPow_pos 2098)
  cases x with
  | nan => simp [isNaN] at hx
  | inf s =>
    cases y with
    | nan => simp [isNaN] at hy
    | inf t =>
      cases s <;> cases t
      case false.false | true.true => exact .refl _
      all_goals
        simp only [key, if_true, Bool.false_eq_true, if_false] at h
        omega
    | fin t r hr =>
      have := key_fin_lt t hr
      cases s <;> simp only [key, if_true, Bool.false_eq_true, if_false] at h this <;> omega
  | fin s q hq =>
    cases y with
    | nan => simp [isNaN] at hy
    | inf t =>
      have := key_fin_lt s hq
      cases t <;> simp only [key, if_true, Bool.false_eq_true, if_false] at h this <;> omega
    | fin t r hr =>
      by_cases hq0 : q = 0
      · have hr0 : r = 0 := by cases s <;> cases t <;> simp [key] at h <;> omega
        exact .inr ⟨by simp [isZero, hq0], by simp [isZero, hr0]⟩
      · have hst : s = t ∧ q = r := by cases s <;> cases t <;> simp [key] at h <;> simp <;> omega
        obtain ⟨rfl, rfl⟩ := hst
        exact .inl rfl

theorem eq_iff {x y : Double} :
    x.eq y = true ↔ x.isNaN = false ∧ y.isNaN = false ∧ x.key = y.key := by
  simp [eq, and_assoc]

/-- Agreement is the equality that scalars are compared with. -/
theorem agrees_iff {x y : Double} :
    x.Agrees y ↔ ((x.isNaN && y.isNaN) || x.eq y) = true := by
  rw [Bool.or_eq_true, Bool.and_eq_true, eq_iff]
  constructor
  · intro h
    cases hx : x.isNaN with
    | true => exact .inl ⟨rfl, h.isNaN_eq ▸ hx⟩
    | false => exact .inr ⟨rfl, h.isNaN_eq ▸ hx, h.key_eq⟩
  · rintro (⟨hx, hy⟩ | ⟨hx, hy, h⟩)
    · cases x <;> cases y <;> simp_all [isNaN, Agrees]
    · exact agrees_of_key_eq hx hy h

/-- A function respects agreement if it does on the zeros. -/
theorem Agrees.map {f : Double → Double} (hf : ∀ s t, (f (signedZero s)).Agrees (f (signedZero t)))
    {x y : Double} (h : x.Agrees y) : (f x).Agrees (f y) := by
  rcases h with rfl | ⟨hx, hy⟩
  · exact .refl _
  · obtain ⟨s, rfl⟩ := isZero_iff.1 hx
    obtain ⟨t, rfl⟩ := isZero_iff.1 hy
    exact hf s t

/-! ## Rounding -/

theorem Agrees.roundTo {x y : Double} (f : Format) (h : x.Agrees y) :
    (x.roundTo f).Agrees (y.roundTo f) := by
  refine h.map fun s t => ?_
  simp only [signedZero, Double.roundTo, Format.round_zero]
  exact agrees_signedZero s t

theorem Agrees.truncateTo {x y : Double} (f : Format) (h : x.Agrees y) :
    (x.truncateTo f).Agrees (y.truncateTo f) := by
  refine h.map fun s t => ?_
  simp only [signedZero, Double.truncateTo, Format.truncate, Nat.zero_div, Nat.zero_mul,
    ofQuanta_zero]
  exact agrees_signedZero s t

theorem Agrees.trunc {x y : Double} (h : x.Agrees y) : x.trunc.Agrees y.trunc := by
  refine h.map fun s t => ?_
  simp only [signedZero, Double.trunc, Nat.zero_div, Nat.zero_mul, ofQuanta_zero]
  exact agrees_signedZero s t

/-! ## Arithmetic -/

theorem Agrees.neg {x y : Double} (h : x.Agrees y) : x.neg.Agrees y.neg :=
  h.map fun s t => agrees_signedZero (!s) (!t)

theorem addIn_signedZero (f : Format) (s t : Bool) (y : Double) :
    (addIn f (signedZero s) y).Agrees (addIn f (signedZero t) y) := by
  cases y with
  | nan => exact .refl _
  | inf u => exact .refl _
  | fin u r hr =>
    have hkey : ∀ v, (fin v 0 (Format.fits_zero _)).key = 0 := key_signedZero
    simp only [signedZero, addIn, hkey, Int.zero_add]
    split
    · rw [Format.round_zero, Format.round_zero]
      exact agrees_signedZero _ _
    · exact .refl _

theorem addIn_comm (f : Format) (x y : Double) : addIn f x y = addIn f y x := by
  cases x <;> cases y <;> try rfl
  · rename_i s t
    cases s <;> cases t <;> rfl
  · rename_i s q hq t r hr
    simp only [addIn, Int.add_comm, Bool.and_comm]

theorem Agrees.addIn {x x' y y' : Double} (f : Format) (hx : x.Agrees x') (hy : y.Agrees y') :
    (addIn f x y).Agrees (addIn f x' y') := by
  refine Agrees.trans (hx.map (f := fun x => Double.addIn f x y) fun s t =>
    addIn_signedZero f s t y) ?_
  rw [addIn_comm f x' y, addIn_comm f x' y']
  exact hy.map (f := fun y => Double.addIn f y x') fun s t => addIn_signedZero f s t x'

theorem mulIn_signedZero (f : Format) (s t : Bool) (y : Double) :
    (mulIn f (signedZero s) y).Agrees (mulIn f (signedZero t) y) := by
  cases y with
  | nan => exact .refl _
  | inf u => exact .refl _
  | fin u r hr =>
    simp only [signedZero, mulIn, Nat.zero_mul, Format.round_zero]
    exact agrees_signedZero _ _

theorem mulIn_comm (f : Format) (x y : Double) : mulIn f x y = mulIn f y x := by
  cases x <;> cases y <;> simp only [mulIn, bne_comm, Nat.mul_comm]

theorem Agrees.mulIn {x x' y y' : Double} (f : Format) (hx : x.Agrees x') (hy : y.Agrees y') :
    (mulIn f x y).Agrees (mulIn f x' y') := by
  refine Agrees.trans (hx.map (f := fun x => Double.mulIn f x y) fun s t =>
    mulIn_signedZero f s t y) ?_
  rw [mulIn_comm f x' y, mulIn_comm f x' y']
  exact hy.map (f := fun y => Double.mulIn f y x') fun s t => mulIn_signedZero f s t x'

/-- Quotients agree unless the divisor is zero, whose sign would choose the infinity. -/
theorem Agrees.divIn {x x' y y' : Double} (f : Format) (hx : x.Agrees x') (hy : y.Agrees y')
    (hz : y.isZero = false ∨ y = y') : (divIn f x y).Agrees (divIn f x' y') := by
  obtain rfl : y = y' := hz.elim hy.eq_of_isZero id
  refine hx.map (f := fun x => Double.divIn f x y) fun s t => ?_
  cases y with
  | nan => exact .refl _
  | inf u =>
    simp only [signedZero, Double.divIn, Format.round_zero]
    exact agrees_signedZero _ _
  | fin u r hr =>
    simp only [signedZero, Double.divIn, Nat.zero_mul, Format.round_zero]
    split
    · exact .refl _
    · exact agrees_signedZero _ _

theorem max_signedZero (s t : Bool) (y : Double) :
    ((signedZero s).max y).Agrees ((signedZero t).max y) := by
  have hlt : ∀ u, y.lt (signedZero u) = (!y.isNaN && decide (y.key < 0)) := by simp [lt]
  simp only [Double.max, signedZero_ne_inf, false_or, isNaN_signedZero, Bool.false_or,
    isZero_signedZero, Bool.true_and, hlt]
  by_cases hinf : y = inf false
  · simp only [hinf, if_true]; exact .refl _
  · by_cases hnan : y.isNaN = true
    · simp only [hinf, hnan, if_true, if_false]; exact .refl _
    · by_cases hzero : y.isZero = true
      · simp only [hinf, hnan, hzero, if_true, if_false, Bool.false_eq_true]
        right
        constructor <;> split <;> simp [hzero]
      · simp only [hinf, hnan, hzero, if_false, Bool.false_eq_true]
        split
        · exact agrees_signedZero s t
        · exact .refl _

theorem max_signedZero_right (s t : Bool) (x : Double) :
    (x.max (signedZero s)).Agrees (x.max (signedZero t)) := by
  have hlt : ∀ u, (signedZero u).lt x = (!x.isNaN && decide (0 < x.key)) := by simp [lt]
  simp only [Double.max, signedZero_ne_inf, or_false, isNaN_signedZero, Bool.or_false,
    isZero_signedZero, Bool.and_true, hlt]
  by_cases hinf : x = inf false
  · simp only [hinf, if_true]; exact .refl _
  · by_cases hnan : x.isNaN = true
    · simp only [hinf, hnan, if_true, if_false]; exact .refl _
    · by_cases hzero : x.isZero = true
      · simp only [hinf, hnan, hzero, if_true, if_false, Bool.false_eq_true]
        right
        constructor <;> split <;> simp [hzero]
      · simp only [hinf, hnan, hzero, if_false, Bool.false_eq_true]
        split
        · exact .refl _
        · exact agrees_signedZero s t

theorem Agrees.max {x x' y y' : Double} (hx : x.Agrees x') (hy : y.Agrees y') :
    (x.max y).Agrees (x'.max y') :=
  (hx.map (f := fun x => Double.max x y) fun s t => max_signedZero s t y).trans
    (hy.map (f := fun y => Double.max x' y) fun s t => max_signedZero_right s t x')

theorem key_neg (x : Double) : x.neg.key = -x.key := by
  cases x with
  | nan => rfl
  | inf s =>
    cases s with
    | false => rfl
    | true => exact (Int.neg_neg _).symm
  | fin s q hq =>
    cases s with
    | false => rfl
    | true => exact (Int.neg_neg _).symm

/-- The minimum is the maximum mirrored at zero. -/
theorem min_eq_neg_max (x y : Double) : x.min y = (x.neg.max y.neg).neg := by
  have hneg : ∀ z : Double, z.neg.neg = z := by intro z; cases z <;> simp [neg]
  have hnan : ∀ z : Double, z.neg.isNaN = z.isNaN := by intro z; cases z <;> rfl
  have hzero : ∀ z : Double, z.neg.isZero = z.isZero := by intro z; cases z <;> rfl
  have hinf : ∀ z : Double, z.neg = inf false ↔ z = inf true := by
    intro z; cases z <;> simp [neg]
  have hlt : y.neg.lt x.neg = x.lt y := by
    simp only [lt, key_neg, hnan, Int.neg_lt_neg_iff]
    rw [Bool.and_comm (!y.isNaN)]
  simp only [Double.min, Double.max, hinf, hnan, hzero, hlt]
  by_cases h1 : x = inf true ∨ y = inf true
  · simp [h1, neg]
  · by_cases h2 : (x.isNaN || y.isNaN) = true
    · simp only [h1, h2, if_true, if_false]; rfl
    · by_cases h3 : (x.isZero && y.isZero) = true
      · have hx : x.neg.isNegative = !x.isNegative := by
          obtain ⟨s, rfl⟩ := isZero_iff.1 (Bool.and_eq_true_iff.1 h3).1
          rfl
        simp only [h1, h2, h3, if_true, if_false, Bool.false_eq_true, hx]
        cases x.isNegative <;> simp [hneg]
      · simp only [h1, h2, h3, if_false, Bool.false_eq_true]
        split <;> simp [hneg]

theorem Agrees.min {x x' y y' : Double} (hx : x.Agrees x') (hy : y.Agrees y') :
    (x.min y).Agrees (x'.min y') := by
  rw [min_eq_neg_max, min_eq_neg_max]
  exact (hx.neg.max hy.neg).neg

/-! ## Functions of one number -/

theorem Agrees.expIn {x y : Double} (f : Format) (h : x.Agrees y) :
    (x.expIn f).Agrees (y.expIn f) := by
  refine h.map fun s t => .inl ?_
  have hsize : ¬746 * quantaPerUnit ≤ 0 :=
    Nat.not_le.2 (Nat.mul_pos (by decide) quantaPerUnit_pos)
  have hfixed : ∀ bits u, expFixed bits u 0 = expFixed bits false 0 := by
    intro bits u
    simp [expFixed]
  simp only [signedZero, Double.expIn, if_neg hsize, hfixed]

theorem Agrees.logIn {x y : Double} (f : Format) (h : x.Agrees y) :
    (x.logIn f).Agrees (y.logIn f) :=
  h.map fun _ _ => .inl rfl

theorem Agrees.sqrtIn {x y : Double} (f : Format) (h : x.Agrees y) :
    (x.sqrtIn f).Agrees (y.sqrtIn f) :=
  h.map fun s t => agrees_signedZero s t

theorem Agrees.tanhIn {x y : Double} (f : Format) (h : x.Agrees y) :
    (x.tanhIn f).Agrees (y.tanhIn f) := by
  refine h.map fun s t => ?_
  have hsmall : 0 < twoPow 1044 := twoPow_pos _
  simp only [signedZero, Double.tanhIn, if_pos hsmall, Format.round_zero]
  exact agrees_signedZero s t

end Double
end Number

open Number

/-! ## Operators -/

/-- Whether the operator divides by its operand, the second one if it has two. -/
def OpKind.divides : OpKind → Bool
  | .unary .rsqrt | .unary .reciprocal | .binary .div => true
  | _ => false

theorem UnaryFn.apply_agrees {fn : UnaryFn} (hfn : (OpKind.unary fn).divides = false) (f : Format)
    {x y : Double} (h : x.Agrees y) : (fn.apply f x).Agrees (fn.apply f y) := by
  cases fn with
  | abs => exact h.map fun _ _ => .inl rfl
  | neg => exact h.neg
  | exp => exact h.expIn f
  | log => exact h.logIn f
  | sqrt => exact h.sqrtIn f
  | rsqrt => exact absurd hfn (by decide)
  | reciprocal => exact absurd hfn (by decide)
  | relu => exact h.max (.refl _)
  | tanh => exact h.tanhIn f

theorem BinaryFn.apply_agrees (fn : BinaryFn) {x x' y y' : Double} (hx : x.Agrees x')
    (hy : y.Agrees y') (hz : fn = .div → y.isZero = false ∨ y = y') :
    (fn.apply x y).Agrees (fn.apply x' y') := by
  cases fn with
  | add => exact hx.addIn _ hy
  | sub => exact hx.addIn _ hy.neg
  | mul => exact hx.mulIn _ hy
  | div => exact hx.divIn _ hy (hz rfl)
  | max => exact hx.max hy
  | min => exact hx.min hy

namespace DType

theorem clamp_agrees (low high : Int) {x y : Double} (h : x.Agrees y) :
    (clamp low high x).Agrees (clamp low high y) :=
  (h.max (.refl _)).min (.refl _)

/-- Rounding to an element type respects agreement. -/
theorem round_agrees (d : DType) {x y : Double} (h : x.Agrees y) :
    (d.round x).Agrees (d.round y) := by
  have hint : ∀ low high, Double.Agrees (if x.isNaN then .zero else clamp low high x.trunc)
      (if y.isNaN then .zero else clamp low high y.trunc) := by
    intro low high
    rw [h.isNaN_eq]
    split
    · exact .refl _
    · exact clamp_agrees low high h.trunc
  cases d with
  | float32 => exact h.roundTo _
  | float16 => exact (h.roundTo _).roundTo _
  | bfloat16 => exact (h.roundTo _).truncateTo _
  | bool => simp only [round, h.isNaN_eq, h.isZero_eq]; exact .refl _
  | int8 | int16 | int32 | int64 | uint8 | uint16 | uint32 | uint64 => exact hint _ _
  | _ => exact h

end DType

namespace Scalar

theorem equal_iff {a b : Scalar} :
    a.equal b = true ↔ a.dtype = b.dtype ∧ a.value.Agrees b.value := by
  rw [equal, Bool.and_eq_true, ← Double.agrees_iff, beq_iff_eq]

theorem equal_refl (a : Scalar) : a.equal a = true := equal_iff.2 ⟨rfl, .refl _⟩

theorem equal_symm {a b : Scalar} (h : a.equal b = true) : b.equal a = true := by
  rw [equal_iff] at h ⊢
  exact ⟨h.1.symm, h.2.symm⟩

theorem equal_trans {a b c : Scalar} (h : a.equal b = true) (h' : b.equal c = true) :
    a.equal c = true := by
  rw [equal_iff] at h h' ⊢
  exact ⟨h.1.trans h'.1, h.2.trans h'.2⟩

theorem isZero_eq_of_equal {a b : Scalar} (h : a.equal b = true) : a.isZero = b.isZero :=
  (equal_iff.1 h).2.isZero_eq

theorem ofDouble_eq_ok {d : DType} {x : Double} {a : Scalar} (h : ofDouble d x = .ok a) :
    d.isSupported = true ∧ a = ⟨d, d.round x⟩ := by
  rw [ofDouble] at h
  split at h
  · exact ⟨‹_›, (Except.ok.inj h).symm⟩
  · exact absurd h (by simp)

theorem ofDouble_equal {d : DType} {x y : Double} {a b : Scalar} (ha : ofDouble d x = .ok a)
    (hb : ofDouble d y = .ok b) (h : x.Agrees y) : a.equal b = true := by
  rw [(ofDouble_eq_ok ha).2, (ofDouble_eq_ok hb).2, equal_iff]
  exact ⟨rfl, d.round_agrees h⟩

/-- **Unary operators respect equality**, except that a divisor must not be zero. -/
theorem evalUnary_equal {op : OpKind} {out : DType} {a b u v : Scalar}
    (ha : evalUnary op a out = .ok u) (hb : evalUnary op b out = .ok v) (h : a.equal b = true)
    (hz : op.divides = true → a.isZero = false) : u.equal v = true := by
  obtain ⟨hd, hv⟩ := equal_iff.1 h
  cases hdiv : op.divides with
  | true =>
    have hab : a = b := by
      cases a; cases b
      simp only [mk.injEq]
      exact ⟨hd, hv.eq_of_isZero (hz hdiv)⟩
    rw [hab, hb] at ha
    rw [Except.ok.inj ha]
    exact equal_refl u
  | false =>
    cases op with
    | cast => exact ofDouble_equal ha hb hv
    | unary fn =>
      simp only [evalUnary, applyUnary, hd] at ha hb
      split at ha
      · rw [if_pos ‹_›] at hb
        exact ofDouble_equal ha hb (UnaryFn.apply_agrees hdiv _ (hv.roundTo _))
      · rw [if_neg ‹_›] at hb
        exact ofDouble_equal ha hb (UnaryFn.apply_agrees hdiv _ hv)
    | _ => simp [evalUnary] at ha

/-- The value that a binary function of `d` rounds to the element type. -/
theorem applyBinary_eq (fn : BinaryFn) (a b : Scalar) :
    applyBinary fn a b = ofDouble a.dtype (if a.dtype.isNarrowFloat
      then (if fn = .div ∧ a.dtype.isInt then (fn.apply a.value b.value).trunc
        else fn.apply a.value b.value).roundTo .single
      else if fn = .div ∧ a.dtype.isInt then (fn.apply a.value b.value).trunc
        else fn.apply a.value b.value) := rfl

theorem evalBinary_eq_ok {op : OpKind} {a b u : Scalar} (h : evalBinary op a b = .ok u) :
    a.dtype = b.dtype ∧ ∃ fn, op = .binary fn ∧ applyBinary fn a b = .ok u := by
  unfold evalBinary at h
  split at h
  · exact absurd h (by simp)
  · rename_i hd
    refine ⟨Decidable.not_not.1 hd, ?_⟩
    cases op with
    | binary fn => exact ⟨fn, rfl, h⟩
    | _ => simp at h

/-- **Binary operators respect equality**, except that a zero divisor must be the very same. -/
theorem evalBinary_equal {op : OpKind} {a a' b b' u v : Scalar} (h : evalBinary op a b = .ok u)
    (h' : evalBinary op a' b' = .ok v) (ha : a.equal a' = true) (hb : b.equal b' = true)
    (hz : op.divides = true → b.isZero = false ∨ b = b') : u.equal v = true := by
  obtain ⟨-, fn, rfl, hu⟩ := evalBinary_eq_ok h
  obtain ⟨-, fn', hfn, hv⟩ := evalBinary_eq_ok h'
  obtain rfl : fn = fn' := by simpa using hfn
  obtain ⟨hd, hav⟩ := equal_iff.1 ha
  have hexact := fn.apply_agrees hav (equal_iff.1 hb).2 (by
    rintro rfl
    exact (hz rfl).imp id (congrArg value))
  rw [applyBinary_eq, hd] at hu
  rw [applyBinary_eq] at hv
  refine ofDouble_equal hu hv ?_
  have hwhole : Double.Agrees
      (if fn = .div ∧ a'.dtype.isInt then (fn.apply a.value b.value).trunc
        else fn.apply a.value b.value)
      (if fn = .div ∧ a'.dtype.isInt then (fn.apply a'.value b'.value).trunc
        else fn.apply a'.value b'.value) := by
    split
    · exact hexact.trunc
    · exact hexact
  split
  · exact hwhole.roundTo _
  · exact hwhole

theorem evalCompare_eq_ok {mode : CompareMode} {a b : Scalar} {t : Bool}
    (h : evalCompare mode a b = .ok t) : mode.holds? a.value b.value = some t := by
  rw [evalCompare] at h
  split at h
  · exact absurd h (by simp)
  · split at h
    · rename_i heq
      rw [heq, Except.ok.inj h]
    · exact absurd h (by simp)

/-- **Comparisons respect equality.** -/
theorem evalCompare_eq {mode : CompareMode} {a a' b b' : Scalar} {s t : Bool}
    (h : evalCompare mode a b = .ok s) (h' : evalCompare mode a' b' = .ok t)
    (ha : a.equal a' = true) (hb : b.equal b' = true) : s = t := by
  have hs := evalCompare_eq_ok h
  have ht := evalCompare_eq_ok h'
  obtain ⟨-, ha⟩ := equal_iff.1 ha
  obtain ⟨-, hb⟩ := equal_iff.1 hb
  have hmode : mode.holds? a.value b.value = mode.holds? a'.value b'.value := by
    cases mode <;>
      simp only [CompareMode.holds?, Double.lt, Double.le, Double.eq, ha.isNaN_eq,
        ha.key_eq, hb.isNaN_eq, hb.key_eq]
  rw [hmode, ht] at hs
  exact (Option.some.inj hs).symm

end Scalar

/-! ## Sentinels

A scalar that no other one goes beyond absorbs it in a maximum, provided that its element type can
store it. -/

namespace Number

/-- A number that the format holds is its own nearest number. -/
theorem Format.nearest_of_fits {f : Format} {q : Nat} (h : f.Fits q) : f.nearest q 1 = q := by
  obtain ⟨k, hk⟩ := h.2
  have hpos : 0 < twoPow (f.spacing q) := twoPow_pos _
  simp only [Format.nearest, Nat.div_one, Nat.one_mul]
  generalize twoPow (f.spacing q) = u at hk hpos
  rw [hk, Nat.mul_comm u k, divNearest_mul k u hpos]

namespace Double

/-- The numbers of a format: a NaN, the infinities, and the finite numbers whose magnitude fits. -/
inductive Holds (f : Format) : Double → Prop
  | nan : Holds f .nan
  | inf (negative : Bool) : Holds f (.inf negative)
  | fin {negative : Bool} {q : Nat} {hq : Format.double.Fits q} (h : f.Fits q) : Holds f
      (.fin negative q hq)

/-- Rounding answers a number of the format. -/
theorem holds_roundTo {f : Format} (hp : 0 < f.precision) (x : Double) : (x.roundTo f).Holds f := by
  cases x with
  | nan => exact .nan
  | inf s => exact .inf s
  | fin s q hq =>
    change (f.round s q 1).Holds f
    unfold Format.round
    dsimp only
    split
    · rename_i h
      exact .fin (Format.fits_nearest hp h.1)
    · exact .inf s

/-- A format rounds its own numbers to themselves. -/
theorem roundTo_of_holds {f : Format} {x : Double} (h : x.Holds f) : x.roundTo f = x := by
  cases h with
  | nan => rfl
  | inf s => rfl
  | @fin s q hq h =>
    have hnear : f.nearest q 1 = q := Format.nearest_of_fits h
    have hround : f.round s q 1 = .fin s (f.nearest q 1) (hnear.symm ▸ hq) :=
      Format.round_eq_fin (hnear.symm ▸ h.1) _
    change f.round s q 1 = _
    rw [hround]
    simp only [hnear]

theorem key_le (x : Double) : x.key ≤ (twoPow 2098 : Int) := by
  have hpos : (0 : Int) < (twoPow 2098 : Int) := Int.ofNat_lt.2 (twoPow_pos 2098)
  cases x with
  | nan => exact Int.le_of_lt hpos
  | inf s => cases s <;> simp only [key, if_true, Bool.false_eq_true, if_false] <;> omega
  | fin s q hq => exact Int.le_of_lt (key_fin_lt s hq).2

/-- The maximum of two numbers is a number, with the larger key. -/
theorem max_key {x y : Double} (hx : x.isNaN = false) (hy : y.isNaN = false) :
    (x.max y).isNaN = false ∧ (x.max y).key = Max.max x.key y.key := by
  have hinf : (inf false).key = (twoPow 2098 : Int) := rfl
  have hxle := key_le x
  have hyle := key_le y
  simp only [max, hx, hy, Bool.or_self, Bool.false_eq_true, if_false]
  split
  · rename_i h
    refine ⟨rfl, ?_⟩
    rcases h with rfl | rfl <;> rw [hinf] at * <;> omega
  · split
    · rename_i h
      obtain ⟨s, rfl⟩ := isZero_iff.1 (Bool.and_eq_true_iff.1 h).1
      obtain ⟨t, rfl⟩ := isZero_iff.1 (Bool.and_eq_true_iff.1 h).2
      split <;> simp
    · split <;> rename_i h <;>
        simp only [lt, hx, hy, Bool.not_false, Bool.true_and, decide_eq_true_eq] at h
      · exact ⟨hx, by omega⟩
      · exact ⟨hy, by omega⟩

theorem le_iff {x y : Double} :
    x.le y = true ↔ x.isNaN = false ∧ y.isNaN = false ∧ x.key ≤ y.key := by
  simp [le, and_assoc]

/-- A number that another does not go beyond is the maximum of the two. -/
theorem max_agrees_of_le {x y h : Double} (hx : x.Agrees h) (hy : y.le h = true) :
    (x.max y).Agrees h ∧ (y.max x).Agrees h := by
  obtain ⟨hyn, hhn, hle⟩ := le_iff.1 hy
  have hxn : x.isNaN = false := hx.isNaN_eq.trans hhn
  have hxk := hx.key_eq
  obtain ⟨hxy, hkey⟩ := max_key hxn hyn
  obtain ⟨hyx, hkey'⟩ := max_key hyn hxn
  exact ⟨agrees_of_key_eq hxy hhn (by omega), agrees_of_key_eq hyx hhn (by omega)⟩

/-- A number that does not go beyond another is the minimum of the two. -/
theorem min_agrees_of_le {x y l : Double} (hx : x.Agrees l) (hy : l.le y = true) :
    (x.min y).Agrees l ∧ (y.min x).Agrees l := by
  have hnan : ∀ z : Double, z.neg.isNaN = z.isNaN := by intro z; cases z <;> rfl
  have hneg : l.neg.neg = l := by cases l <;> simp [neg]
  have hle : y.neg.le l.neg = true := by
    obtain ⟨hl, hy, hle⟩ := le_iff.1 hy
    rw [le_iff, hnan, hnan, key_neg, key_neg]
    exact ⟨hy, hl, by omega⟩
  obtain ⟨h1, h2⟩ := max_agrees_of_le hx.neg hle
  rw [min_eq_neg_max, min_eq_neg_max y x, ← hneg]
  exact ⟨h1.neg, h2.neg⟩

end Double
end Number

open Number

/-- Narrow floats are rounded to single precision before anything else. -/
theorem DType.round_roundTo_single {d : DType} (h : d.isNarrowFloat = true) (x : Double) :
    d.round (x.roundTo .single) = d.round x := by
  have hs := Double.roundTo_of_holds (Double.holds_roundTo (f := .single) (by decide) x)
  cases d <;> first | exact absurd h (by decide) | simp only [DType.round, hs]

namespace Scalar

/-- A result other than a quotient that agrees with a scalar which can be stored is stored as that
scalar. -/
theorem evalBinary_equal_of_agrees {fn : BinaryFn} (hfn : fn ≠ .div) {a b c u : Scalar}
    (h : evalBinary (.binary fn) a b = .ok u) (hd : a.dtype = c.dtype)
    (hfix : (c.dtype.round c.value).Agrees c.value)
    (hx : (fn.apply a.value b.value).Agrees c.value) :
    u.equal c = true := by
  obtain ⟨-, fn', hfn', hu⟩ := evalBinary_eq_ok h
  obtain rfl : fn = fn' := by simpa using hfn'
  simp only [applyBinary_eq, hfn, false_and, if_false, hd] at hu
  have hround : (c.dtype.round (fn.apply a.value b.value)).Agrees c.value :=
    (c.dtype.round_agrees hx).trans hfix
  rw [(ofDouble_eq_ok hu).2, equal_iff]
  refine ⟨rfl, ?_⟩
  split
  · rename_i hn
    rwa [DType.round_roundTo_single hn]
  · exact hround

end Scalar

/-! ## Neutral elements -/

namespace Number

theorem oddPart_two_pow (k : Nat) : oddPart (twoPow k) = (1, k) := by
  induction k with
  | zero => rw [oddPart]; simp
  | succ k ih =>
    have hpos : 0 < 2 ^ k := Nat.two_pow_pos k
    have hdiv : twoPow (k + 1) / 2 = twoPow k := by
      change 2 ^ (k + 1) / 2 = 2 ^ k
      omega
    have hne : twoPow (k + 1) ≠ 0 := Nat.ne_of_gt (twoPow_pos _)
    have heven : twoPow (k + 1) % 2 ≠ 1 := by
      change 2 ^ (k + 1) % 2 ≠ 1
      omega
    rw [oddPart, if_neg hne, if_neg heven, hdiv, ih]

/-- The power of one, or its inverse, is one. -/
theorem powMagnitude_unit (negative invert : Bool) (n : Nat) :
    powMagnitude negative invert quantaPerUnit n =
      Format.double.round negative quantaPerUnit 1 := by
  have hodd : oddPart quantaPerUnit = (1, 1074) := by rw [quantaPerUnit_eq, oddPart_two_pow]
  have hlog : quantaPerUnit.log2 = 1074 := by rw [quantaPerUnit_eq, log2_twoPow]
  have hup : ¬(1076 : Int) ≤ ((1074 : Nat) - 1074 : Int) * n := by omega
  have hdown : ¬((1074 : Nat) - 1074 : Int) * n < -1075 := by omega
  have hscale : (n : Int) * ((1074 : Nat) - 1074 : Int) = 0 := by omega
  simp only [powMagnitude, hodd, hlog, if_true, hup, hdown, if_false, true_or, hscale]
  have hzero : twoPow 0 = 1 := rfl
  cases invert with
  | true =>
    rw [if_pos rfl, show ((1074 : Int) - 0).toNat = 1074 from rfl,
      show (-((1074 : Int) - 0)).toNat = 0 from rfl, ← quantaPerUnit_eq, hzero]
  | false =>
    rw [if_neg Bool.false_ne_true, show ((0 : Int) + 1074).toNat = 1074 from rfl,
      show (-((0 : Int) + 1074)).toNat = 0 from rfl, ← quantaPerUnit_eq, hzero, Nat.one_mul]

namespace Double

theorem one_eq_round : one = Format.double.round false quantaPerUnit 1 := by
  simp only [one, ofInt, Int.natAbs_one, Nat.one_mul]
  rfl

theorem one_eq_fin : ∃ h, one = .fin false quantaPerUnit h :=
  ⟨by decide +kernel, by decide +kernel⟩

/-- Every power of one is one. -/
theorem powInt_one (n : Int) : one.powInt n = one := by
  obtain ⟨hfits, hone⟩ := one_eq_fin
  by_cases hn : n = 0
  · rw [powInt, if_pos hn]
  · rw [powInt, if_neg hn, hone]
    simp only [Bool.false_and, if_neg (Nat.ne_of_gt quantaPerUnit_pos)]
    rw [powMagnitude_unit, ← one_eq_round, hone]

/-- Rounding at most doubles a magnitude. -/
theorem nearest_double_le (n : Nat) : Format.double.nearest n 1 ≤ 2 * n := by
  rcases Nat.eq_zero_or_pos n with rfl | hpos
  · exact Nat.le_of_eq (Format.nearest_zero Format.double 1)
  · have hspacing : Format.double.spacing n ≤ n.log2 := by
      simp only [Format.spacing, Format.double]
      omega
    have hunit : twoPow (Format.double.spacing n) ≤ n :=
      Nat.le_trans (Nat.pow_le_pow_right (by decide) hspacing)
        (Nat.log2_self_le (Nat.ne_of_gt hpos))
    simp only [Format.nearest, Nat.div_one, Nat.one_mul]
    generalize twoPow (Format.double.spacing n) = u at hunit
    calc divNearest n u * u
        ≤ (n / u + 1) * u := Nat.mul_le_mul_right u (divNearest_le n u)
      _ = n / u * u + u := Nat.succ_mul _ _
      _ ≤ n + n := Nat.add_le_add (Nat.div_mul_le_self n u) hunit
      _ = 2 * n := (Nat.two_mul n).symm

/-- A 64-bit integer is within the range of doubles. -/
theorem ofInt_finite {z : Int} (hz : z.natAbs ≤ twoPow 64) : ∃ s q h, ofInt z = .fin s q h := by
  have hlimit : 2 * (twoPow 64 * quantaPerUnit) < twoPow Format.double.limit := by
    rw [twoPow_mul_quantaPerUnit, show 2 = twoPow 1 from rfl, ← twoPow_add]
    exact twoPow_lt (by decide)
  have hnear : Format.double.nearest (z.natAbs * quantaPerUnit) 1 < twoPow Format.double.limit := by
    refine Nat.lt_of_le_of_lt (nearest_double_le _) (Nat.lt_of_le_of_lt ?_ hlimit)
    exact Nat.mul_le_mul_left 2 (Nat.mul_le_mul_right _ hz)
  have hfits := Format.fits_nearest (f := .double) (by decide) hnear
  exact ⟨z < 0, _, hfits, Format.round_eq_fin hnear hfits⟩

/-- A zero times a 64-bit integer is a zero. -/
theorem isZero_mul_ofInt {x : Double} (hx : x.isZero = true) {z : Int} (hz : z.natAbs ≤ twoPow 64) :
    (x.mul (ofInt z)).isZero = true := by
  obtain ⟨s, rfl⟩ := isZero_iff.1 hx
  obtain ⟨t, q, hq, hcount⟩ := ofInt_finite hz
  rw [hcount]
  simp only [mul, signedZero, mulIn, Nat.zero_mul, Format.round_zero]
  rfl

end Double
end Number

open Number

theorem DType.round_zero (d : DType) : d.round .zero = .zero := by
  cases d <;> decide +kernel

theorem DType.round_one (d : DType) : d.round .one = .one := by
  cases d <;> decide +kernel

theorem RunError.ofScalar_eq_ok {α : Type} {x : Except ScalarError α} {a : α} :
    RunError.ofScalar x = .ok a ↔ x = .ok a := by
  cases x <;> simp [RunError.ofScalar]

/-- **Reducing copies of a neutral element gives the neutral element**, if there are not so many
that their number is no double. -/
theorem Platform.evalReduceRepeated_neutral {p : Platform} {fn : ReduceFn} {d : DType} {v : Scalar}
    (h : p.neutral (.reduce fn) d = .ok v) {z : Int} (hz : fn = .sum → z.natAbs ≤ twoPow 64) :
    ∃ u, Scalar.evalReduceRepeated (.reduce fn) v z = .ok u ∧ u.equal v = true := by
  cases fn with
  | max => exact ⟨v, rfl, Scalar.equal_refl v⟩
  | min => exact ⟨v, rfl, Scalar.equal_refl v⟩
  | sum =>
    obtain ⟨hd, rfl⟩ := Scalar.ofDouble_eq_ok (RunError.ofScalar_eq_ok.1 h)
    refine ⟨⟨d, d.round (Double.zero.mul (.ofInt z))⟩, ?_, ?_⟩
    · simp only [Scalar.evalReduceRepeated, DType.round_zero, Scalar.ofDouble, hd, if_true]
    · have hzero := Double.isZero_mul_ofInt (x := .zero) rfl (hz rfl)
      exact Scalar.equal_iff.2 ⟨rfl, d.round_agrees (.inr ⟨hzero, rfl⟩)⟩
  | prod =>
    obtain ⟨hd, rfl⟩ := Scalar.ofDouble_eq_ok (RunError.ofScalar_eq_ok.1 h)
    refine ⟨⟨d, .one⟩, ?_, ?_⟩
    · simp only [Scalar.evalReduceRepeated, DType.round_one, Double.powInt_one,
        Scalar.ofDouble, hd, if_true]
    · rw [DType.round_one]
      exact Scalar.equal_refl _

end LanePadding
