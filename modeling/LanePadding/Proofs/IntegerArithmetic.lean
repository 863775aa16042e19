import LanePadding.Proofs.NearestNumber

/-!
# Integer arithmetic is exact and saturates

Scalars of integer types are carried as doubles, computed with in double precision and then clamped
to the range of their type.  For types of up to 32 bits nothing is lost on the way: the result of an
operator is the integer that it should be, clamped to the range (`Scalar.evalBinary_saturates`).

Sums of such integers are doubles.  A product may have more bits than a double keeps, but then it
lies past `2^53`, and so does the double that it is rounded to, which is all that clamping looks at
(`DType.round_ofInt`).  And the integral part of a rounded quotient is that of the exact one
(`Double.trunc_div_ofInt`).

## What is here

* `DType.saturate`, `BinaryFn.onInts` — clamping and the operators, on integers.
* `DType.StoresShort` — the types of up to 32 bits, with their ranges; the booleans are among them.
* `DType.round_ofInt` — what such a type makes of an integer.
* `DType.StoresShort.agrees_toInt` — the values of such a type are the integers of its range.
-/

set_option autoImplicit false

namespace LanePadding

open Number

/-! ## Doubles past the integers that they hold -/

namespace Number.Double

variable {x y v : Double} {z : Int} {k : Nat}

theorem twoPow_mul_quantaPerUnit_lt : twoPow 53 * quantaPerUnit < twoPow 2098 := by
  rw [twoPow_mul_quantaPerUnit]
  exact twoPow_lt (by decide)

theorem min_key (hx : x.isNaN = false) (hy : y.isNaN = false) :
    (x.min y).isNaN = false ∧ (x.min y).key = Min.min x.key y.key := by
  obtain ⟨hnumber, hkey⟩ := max_key ((isNaN_neg x).trans hx) ((isNaN_neg y).trans hy)
  rw [min_eq_neg_max, isNaN_neg, key_neg, hkey, key_neg, key_neg]
  exact ⟨hnumber, by omega⟩

/-- The integral part of a large magnitude is large. -/
theorem key_trunc_fin (s : Bool) {q : Nat} (hq : Format.double.Fits q)
    (h : twoPow 53 * quantaPerUnit ≤ q) :
    ∃ r : Nat, twoPow 53 * quantaPerUnit ≤ r ∧ (fin s q hq).trunc.key = if s then
      -(r : Int) else r := by
  have hle : twoPow 53 * quantaPerUnit ≤ q / quantaPerUnit * quantaPerUnit :=
    Nat.mul_le_mul_right _ ((Nat.le_div_iff_mul_le quantaPerUnit_pos).2 h)
  rw [trunc, ofQuanta]
  split
  · exact ⟨_, hle, rfl⟩
  · exact ⟨twoPow 2098, twoPow_mul_quantaPerUnit_lt.le, rfl⟩

/-- The double nearest to an integer past `2^53` lies past `2^53`. -/
theorem key_trunc_round (s : Bool) (hk : twoPow 53 ≤ k) :
    ∃ r : Nat, twoPow 53 * quantaPerUnit ≤ r ∧
      (Format.double.round s (k * quantaPerUnit) 1).trunc.key = if s then -(r : Int) else r := by
  have hbound : Format.double.Fits (twoPow 53 * quantaPerUnit) :=
    fits_mul_quantaPerUnit (Nat.le_refl _)
  have hle : twoPow 53 * quantaPerUnit ≤ Format.double.nearest (k * quantaPerUnit) 1 := by
    refine Format.le_nearest (by decide) Nat.one_pos hbound.2 ?_
    rw [Nat.mul_one]
    exact Nat.mul_le_mul_right _ hk
  unfold Format.round
  dsimp only
  split
  · exact key_trunc_fin s _ hle
  · exact ⟨twoPow 2098, twoPow_mul_quantaPerUnit_lt.le, rfl⟩

theorem trunc_ofInt (hz : z.natAbs ≤ twoPow 53) : (ofInt z).trunc = ofInt z := by
  rw [ofInt_eq_fin hz]
  simp only [trunc, Nat.mul_div_cancel _ quantaPerUnit_pos, ofQuanta,
    dif_pos (fits_mul_quantaPerUnit hz)]

/-- A number without a fraction that is not too large is the integer that it is truncated to. -/
theorem agrees_ofInt_toInt (hnumber : v.isNaN = false) (htrunc : v.trunc = v)
    (hsize : v.key.natAbs ≤ twoPow 53 * quantaPerUnit) :
    v.Agrees (ofInt v.toInt) ∧ v.key = v.toInt * quantaPerUnit := by
  cases v with
  | nan => simp [isNaN] at hnumber
  | inf s =>
    have hlimit := twoPow_mul_quantaPerUnit_lt
    have hkey : (inf s).key.natAbs = twoPow 2098 := by
      cases s <;> simp only [key, if_true, Bool.false_eq_true, if_false, Int.natAbs_neg,
        Int.natAbs_natCast]
    omega
  | fin s q hq =>
    have hwhole : q / quantaPerUnit * quantaPerUnit = q := by
      rw [trunc, ofQuanta] at htrunc
      split at htrunc
      · exact (fin.inj htrunc).2
      · simp at htrunc
    refine ⟨fin_agrees_ofInt_toInt s hq ⟨q / quantaPerUnit, by rw [Nat.mul_comm, hwhole]⟩, ?_⟩
    have hcast : ((q / quantaPerUnit : Nat) : Int) * quantaPerUnit = q := by
      rw [← Nat.cast_mul, hwhole]
    cases s
    · simp only [key, toInt, Bool.false_eq_true, if_false, hcast]
    · simp only [key, toInt, if_true, neg_mul, hcast]

end Number.Double

/-! ## Clamping -/

namespace DType

/-- The integer from `low` to `high` that is closest to `z`. -/
def saturate (low high z : Int) : Int := Min.min (Max.max z low) high

variable {d : DType} {low high : Int} {v : Double}

theorem key_clamp (h : Spans (.ofInt low) (.ofInt high)) (hv : v.isNaN = false) :
    (clamp low high v).key = Min.min (Max.max v.key (Double.ofInt low).key)
      (Double.ofInt high).key := by
  obtain ⟨hnumber, hmax⟩ := Double.max_key hv h.isNaN_low
  rw [clamp, (Double.min_key hnumber h.isNaN_high).2, hmax]

/-- A value of an integer type is a number within the range and has no fraction. -/
theorem integral_of_round_eq (hd : d ≠ .bool) (h : d.intRange? = some (low, high))
    (hv : d.round v = v) :
    v.isNaN = false ∧ v.trunc = v ∧ clamp low high v = v := by
  have hspans := spans_of_intRange? h
  rw [round_eq_of_intRange? hd h] at hv
  split at hv
  · rename_i hnan
    rw [← hv] at hnan
    exact absurd hnan (by decide)
  · rename_i hnumber
    rw [Bool.not_eq_true] at hnumber
    have htrunc : v.trunc = v := by
      rw [← hv]
      exact trunc_clamp hspans ((Double.isNaN_trunc v).trans hnumber) (Double.trunc_trunc v)
    exact ⟨hnumber, htrunc, by rwa [htrunc] at hv⟩

theorem exists_intRange? (h : d.isInt = true) :
    d ≠ .bool ∧ ∃ low high, d.intRange? = some (low, high) := by
  cases d <;> simp [isInt, intRange?] at h ⊢

/-- The limits of an element type with a range of integers are the ends of the range. -/
theorem limits_of_intRange? (h : d.intRange? = some (low, high)) :
    d.lowest = .ok (.ofInt low) ∧ d.highest = .ok (.ofInt high) := by
  cases d
  case bool | int8 | int16 | int32 | int64 | uint8 | uint16 | uint32 | uint64 =>
    obtain ⟨rfl, rfl⟩ := Prod.mk.inj (Option.some.inj h)
    exact ⟨rfl, rfl⟩
  all_goals exact absurd h (by simp [intRange?])

/-- The element type stores the integers from `low` to `high`, in at most 32 bits. -/
structure StoresShort (d : DType) (low high : Int) : Prop where
  range : d.intRange? = some (low, high)
  short : high - low < 4294967296

namespace StoresShort

theorem low_le_zero (h : d.StoresShort low high) : low ≤ 0 ∧ 0 < high := by
  obtain ⟨hrange, -⟩ := h
  cases d
  all_goals simp only [intRange?, Option.some.injEq, Prod.mk.injEq, reduceCtorEq] at hrange
  all_goals omega

theorem natAbs_le (h : d.StoresShort low high) {z : Int} (hz : low ≤ z ∧ z ≤ high) :
    z.natAbs ≤ twoPow 32 := by
  have hends := h.low_le_zero
  have hshort := h.short
  change z.natAbs ≤ 4294967296
  omega

theorem natAbs_ends (h : d.StoresShort low high) :
    low.natAbs ≤ twoPow 53 ∧ high.natAbs ≤ twoPow 53 := by
  have hends := h.low_le_zero
  have hwide : twoPow 32 ≤ twoPow 53 := by decide
  exact ⟨(h.natAbs_le (by omega)).trans hwide, (h.natAbs_le (by omega)).trans hwide⟩

/-- The ends of the range, in quanta. -/
theorem key_ends (h : d.StoresShort low high) :
    -(twoPow 53 * quantaPerUnit : Nat) ≤ low * quantaPerUnit ∧
      low * quantaPerUnit ≤ high * quantaPerUnit ∧
      high * quantaPerUnit ≤ (twoPow 53 * quantaPerUnit : Nat) := by
  have hends := h.low_le_zero
  have hsize := h.natAbs_ends
  have hnonneg : (0 : Int) ≤ quantaPerUnit := Int.natCast_nonneg _
  rw [Nat.cast_mul, ← neg_mul]
  exact ⟨Int.mul_le_mul_of_nonneg_right (by omega) hnonneg, Int.mul_le_mul_of_nonneg_right
    (by omega) hnonneg, Int.mul_le_mul_of_nonneg_right (by omega) hnonneg⟩

theorem isSupported (h : d.StoresShort low high) : d.isSupported = true := by
  obtain ⟨hrange, -⟩ := h
  cases d <;> first | rfl | simp [intRange?] at hrange

theorem isNarrowFloat (h : d.StoresShort low high) : d.isNarrowFloat = false := by
  obtain ⟨hrange, -⟩ := h
  cases d <;> first | rfl | simp [intRange?] at hrange

/-- The booleans take every positive integer for one. -/
theorem round_bool_ofInt {z : Int} (hz : 0 ≤ z) :
    (bool.round (.ofInt z)).Agrees (.ofInt (saturate 0 1 z)) := by
  have hround : bool.round (.ofInt z) = if (Double.ofInt z).isZero then .zero else .one := by
    simp only [round, Double.isNaN_ofInt, Bool.false_or]
  rcases hz.eq_or_lt with rfl | hpos
  · rw [hround, Double.ofInt_zero]
    exact .inl Double.ofInt_zero.symm
  · have hone : saturate 0 1 z = 1 := by
      rw [saturate]
      omega
    rw [hround, Double.isZero_ofInt hpos.ne', if_neg Bool.false_ne_true, hone, Double.one]
    exact .refl _

/-- **An integer is clamped to the range**, and rounding it to double precision before makes no
difference. -/
theorem round_ofInt (h : d.StoresShort low high) {z : Int} (hz : d = .bool → 0 ≤ z) :
    (d.round (.ofInt z)).Agrees (.ofInt (saturate low high z)) := by
  by_cases hd : d = .bool
  · subst hd
    obtain ⟨rfl, rfl⟩ := Prod.mk.inj (Option.some.inj h.range)
    exact round_bool_ofInt (hz rfl)
  have hspans := spans_of_intRange? h.range
  obtain ⟨hlow, hhigh⟩ := h.natAbs_ends
  have hends := h.low_le_zero
  have hnumber := Double.isNaN_ofInt z
  have htrunc : (Double.ofInt z).trunc.isNaN = false := (Double.isNaN_trunc _).trans hnumber
  have hsaturate : (saturate low high z).natAbs ≤ twoPow 53 := by
    rw [saturate]
    omega
  rw [round_eq_of_intRange? hd h.range, if_neg (by simp [hnumber])]
  refine Double.agrees_of_key_eq (isNaN_clamp hspans htrunc) (Double.isNaN_ofInt _) ?_
  rw [key_clamp hspans htrunc, Double.key_ofInt hlow, Double.key_ofInt hhigh,
    Double.key_ofInt hsaturate]
  by_cases hsize : z.natAbs ≤ twoPow 53
  · have hnonneg : (0 : Int) ≤ quantaPerUnit := Int.natCast_nonneg _
    rw [Double.trunc_ofInt hsize, Double.key_ofInt hsize, ← max_mul_of_nonneg _ _ hnonneg,
      ← min_mul_of_nonneg _ _ hnonneg, saturate]
  · -- the double is past `2^53` as well, so both are clamped to the same end
    obtain ⟨r, hr, hkey⟩ := Double.key_trunc_round (z < 0) (Nat.le_of_not_le hsize)
    have hquanta := h.key_ends
    rw [← Double.ofInt] at hkey
    by_cases hneg : z < 0
    · have hend : saturate low high z = low := by
        rw [saturate]
        omega
      rw [hkey, hend, if_pos (decide_eq_true hneg)]
      omega
    · have hend : saturate low high z = high := by
        rw [saturate]
        omega
      rw [hkey, hend, if_neg (by simpa using hneg)]
      omega

theorem agrees_toInt_bool (hv : bool.round v = v) :
    v.Agrees (.ofInt v.toInt) ∧ 0 ≤ v.toInt ∧ v.toInt ≤ 1 := by
  have hzero : Double.zero.toInt = 0 ∧ Double.zero = .ofInt 0 := by decide +kernel
  have hone : Double.one.toInt = 1 := by decide +kernel
  have hcases : v = .zero ∨ v = .one := by
    rw [← hv, round]
    exact (ite_eq_or_eq _ _ _)
  rcases hcases with h | h
  · rw [h, hzero.1, ← hzero.2]
    exact ⟨.refl _, by decide⟩
  · rw [h, hone, Double.one]
    exact ⟨.refl _, by decide⟩

/-- **The values of the type are the integers of its range.** -/
theorem agrees_toInt (h : d.StoresShort low high) (hv : d.round v = v) :
    v.Agrees (.ofInt v.toInt) ∧ low ≤ v.toInt ∧ v.toInt ≤ high := by
  by_cases hd : d = .bool
  · subst hd
    obtain ⟨rfl, rfl⟩ := Prod.mk.inj (Option.some.inj h.range)
    exact agrees_toInt_bool hv
  have hpos : (0 : Int) < quantaPerUnit := Int.natCast_pos.2 quantaPerUnit_pos
  have hquanta := h.key_ends
  obtain ⟨hlow, hhigh⟩ := h.natAbs_ends
  obtain ⟨hnumber, htrunc, hclamp⟩ := integral_of_round_eq hd h.range hv
  have hkey := key_clamp (spans_of_intRange? h.range) hnumber
  rw [hclamp, Double.key_ofInt hlow, Double.key_ofInt hhigh] at hkey
  obtain ⟨hagrees, htoInt⟩ := Double.agrees_ofInt_toInt hnumber htrunc (by omega)
  rw [htoInt] at hkey
  exact ⟨hagrees, le_of_mul_le_mul_right (by omega) hpos, le_of_mul_le_mul_right (by omega) hpos⟩

theorem saturate_mem (h : d.StoresShort low high) (z : Int) :
    low ≤ saturate low high z ∧ saturate low high z ≤ high := by
  have hends := h.low_le_zero
  rw [saturate]
  omega

theorem limits (h : d.StoresShort low high) :
    d.lowest = .ok (.ofInt low) ∧ d.highest = .ok (.ofInt high) :=
  limits_of_intRange? h.range

end StoresShort
end DType

/-! ## Operators -/

/-- A binary function of integers; a quotient is cut off toward zero. -/
def BinaryFn.onInts : BinaryFn → Int → Int → Int
  | .add, a, b => a + b
  | .sub, a, b => a - b
  | .mul, a, b => a * b
  | .div, a, b => a.tdiv b
  | .max, a, b => Max.max a b
  | .min, a, b => Min.min a b

/-- The double nearest to the integer that a function should answer. -/
theorem BinaryFn.apply_ofInt {fn : BinaryFn} {a b : Int} (ha : a.natAbs ≤ twoPow 32)
    (hb : b.natAbs ≤ twoPow 32) (hdiv : fn = .div → b ≠ 0) :
    (if fn = .div then (fn.apply (.ofInt a) (.ofInt b)).trunc else fn.apply (.ofInt a)
      (.ofInt b)).Agrees (.ofInt (fn.onInts a b)) := by
  have ha' : a.natAbs ≤ twoPow 53 := ha.trans (by decide)
  have hb' : b.natAbs ≤ twoPow 53 := hb.trans (by decide)
  cases fn with
  | div =>
    rw [if_pos rfl]
    exact Double.trunc_div_ofInt (hdiv rfl) ((Nat.add_le_add ha hb).trans (by decide))
  | add =>
    rw [if_neg (by decide)]
    exact Double.add_ofInt ha' hb'
  | sub =>
    rw [if_neg (by decide)]
    exact Double.sub_ofInt ha' hb'
  | mul =>
    rw [if_neg (by decide)]
    exact Double.mul_ofInt ha' hb'
  | max =>
    rw [if_neg (by decide)]
    exact Double.max_ofInt ha' hb'
  | min =>
    rw [if_neg (by decide)]
    exact Double.min_ofInt ha' hb'

namespace Scalar

variable {d : DType} {low high : Int} {x y : Double}

theorem equal_mk {d : DType} {x y : Double} :
    (⟨d, x⟩ : Scalar).equal ⟨d, y⟩ = true ↔ x.Agrees y := by
  rw [equal_iff]
  exact and_iff_right rfl

theorem evalBinary_eq_ok_round (hd : d.isSupported = true) (hnarrow : d.isNarrowFloat = false)
    (fn : BinaryFn) (x y : Double) : evalBinary (.binary fn) ⟨d, x⟩ ⟨d, y⟩ =
      .ok ⟨d, d.round (if fn = .div ∧ d.isInt = true then (fn.apply x y).trunc
        else fn.apply x y)⟩ := by
  simp only [evalBinary, ne_eq, not_true_eq_false, if_false, applyBinary, hnarrow,
    Bool.false_eq_true, ofDouble, hd, if_true]

/-- One step of arithmetic in a short type, on values that are known as integers. -/
theorem evalBinary_ofInt (h : d.StoresShort low high) {fn : BinaryFn} {a b : Int}
    (hx : x.Agrees (.ofInt a)) (hy : y.Agrees (.ofInt b)) (ha : low ≤ a ∧ a ≤ high)
    (hb : low ≤ b ∧ b ≤ high) (hdiv : fn = .div → d.isInt = true ∧ b ≠ 0)
    (hbool : d = .bool → 0 ≤ fn.onInts a b) :
    ∃ v, evalBinary (.binary fn) ⟨d, x⟩ ⟨d, y⟩ = .ok ⟨d, v⟩ ∧
      v.Agrees (.ofInt (DType.saturate low high (fn.onInts a b))) := by
  refine ⟨_, evalBinary_eq_ok_round h.isSupported h.isNarrowFloat fn x y, ?_⟩
  have hexact := fn.apply_agrees hx hy fun hfn =>
    .inl (hy.isZero_eq.trans (Double.isZero_ofInt (hdiv hfn).2))
  have hresult := BinaryFn.apply_ofInt (h.natAbs_le ha) (h.natAbs_le hb) fun hfn => (hdiv hfn).2
  refine (d.round_agrees ?_).trans (h.round_ofInt hbool)
  by_cases hfn : fn = .div
  · rw [if_pos ⟨hfn, (hdiv hfn).1⟩]
    rw [if_pos hfn] at hresult
    exact hexact.trunc.trans hresult
  · rw [if_neg fun hand => hfn hand.1]
    rw [if_neg hfn] at hresult
    exact hexact.trans hresult

/-- **Integer arithmetic is exact and saturates.**  In an integer type of up to 32 bits, a binary
function of two values answers the exact integer, the quotient cut off toward zero, clamped to the
limits of the type. -/
theorem evalBinary_saturates (hd : d.isInt = true) (h : d.StoresShort low high) (hx : d.round x = x)
    (hy : d.round y = y) (fn : BinaryFn) (hdiv : fn = .div → y.isZero = false) :
    d.lowest = .ok (.ofInt low) ∧ d.highest = .ok (.ofInt high) ∧
    x.Agrees (.ofInt x.toInt) ∧ y.Agrees (.ofInt y.toInt) ∧
    ∃ u, evalBinary (.binary fn) ⟨d, x⟩ ⟨d, y⟩ = .ok u ∧
      u.equal ⟨d, .ofInt (DType.saturate low high (fn.onInts x.toInt y.toInt))⟩ = true := by
  obtain ⟨hxint, hxrange⟩ := h.agrees_toInt hx
  obtain ⟨hyint, hyrange⟩ := h.agrees_toInt hy
  have hdivisor : fn = .div → d.isInt = true ∧ y.toInt ≠ 0 := by
    refine fun hfn => ⟨hd, fun hzero => ?_⟩
    have hyzero := hyint.isZero_eq
    rw [hdiv hfn, hzero] at hyzero
    rw [Double.ofInt_zero] at hyzero
    exact absurd hyzero (by decide)
  have hbool : d = .bool → 0 ≤ fn.onInts x.toInt y.toInt := by
    rintro rfl
    exact absurd hd (by decide)
  obtain ⟨v, hv, hagrees⟩ := evalBinary_ofInt h hxint hyint hxrange hyrange hdivisor hbool
  exact ⟨h.limits.1, h.limits.2, hxint, hyint, ⟨d, v⟩, hv, equal_mk.2 hagrees⟩

/-- A product of 62 bits, which no double holds, and a quotient just below two. -/
theorem evalBinary_saturates_ends :
    (∃ u, evalBinary (.binary .mul) ⟨.int32, .ofInt (-2147483647)⟩
        ⟨.int32, .ofInt 2147483647⟩ = .ok u ∧
      u.equal ⟨.int32, .ofInt (-2147483648)⟩ = true) ∧
    ∃ u, evalBinary (.binary .div) ⟨.uint32, .ofInt 4294967293⟩
        ⟨.uint32, .ofInt 2147483647⟩ = .ok u ∧
      u.equal ⟨.uint32, .ofInt 1⟩ = true := by
  obtain ⟨-, -, -, -, hmul⟩ := evalBinary_saturates (d := .int32) (x := .ofInt (-2147483647))
    (y := .ofInt 2147483647)
    rfl ⟨rfl, by decide⟩ (by decide +kernel) (by decide +kernel) .mul fun h => absurd h (by decide)
  obtain ⟨-, -, -, -, hdiv⟩ := evalBinary_saturates (d := .uint32) (x := .ofInt 4294967293)
    (y := .ofInt 2147483647)
    rfl ⟨rfl, by decide⟩ (by decide +kernel) (by decide +kernel) .div fun _ => by decide +kernel
  have hints : (Double.ofInt (-2147483647)).toInt = -2147483647 ∧
      (Double.ofInt 2147483647).toInt = 2147483647 ∧
      (Double.ofInt 4294967293).toInt = 4294967293 := by decide +kernel
  rw [hints.1, hints.2.1] at hmul
  rw [hints.2.1, hints.2.2] at hdiv
  exact ⟨hmul, hdiv⟩

end Scalar
end LanePadding
