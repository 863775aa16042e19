import LanePadding.Proofs.Transfer
import LanePadding.Proofs.Typing

/-!
# The tables of comparisons and binary functions

Comparisons and binary functions look up what padding lanes hold in tables, by the kinds of content
of the two operands.  A table answers for all values that lanes of these kinds can have, and it does
not matter which operand stands on the left.

## What is here

* `Platform.LaneValue` — what a lane of an element type can hold.
* `Platform.tables_sound_on_lanes` — a scalar that a table answers is the one computed from any two
  lanes.
* `Platform.comparePadding_flip`, `Platform.binaryPadding_comm` — one table after the other, with
  the operands swapped.
* `Platform.tables_mirror` — operands may be swapped: a comparison then goes through its flipped
  mode, and sums, products, maxima and minima stay the same.
-/

set_option autoImplicit false

namespace LanePadding

open Number

/-! ## Lane by lane -/

namespace Platform

variable {p : Platform} {d : DType} {lhs rhs q : PaddingValue} {mode : CompareMode} {fn : BinaryFn}
  {a b u : Scalar}

/-- A value that a lane of the element type `d` can hold: rounding leaves it as it is, and it is a
number within the limits of the platform. -/
structure LaneValue (p : Platform) (d : DType) (s : Scalar) : Prop where
  dtype_eq : s.dtype = d
  isSupported : d.isSupported = true
  round_eq : d.round s.value = s.value
  inRange : p.InRange s

/-- What rounding leaves as it is can be stored, and so can all that is equal to it. -/
theorem LaneValue.round_agrees (h : p.LaneValue d a) (hu : a.equal u = true) :
    (u.dtype.round u.value).Agrees u.value := by
  obtain ⟨hdtype, hvalue⟩ := Scalar.equal_iff.1 hu
  rw [← hdtype, h.dtype_eq]
  have hround : (d.round u.value).Agrees a.value := h.round_eq ▸ d.round_agrees hvalue.symm
  exact hround.trans hvalue

/-- Real data leaves only a scalar that is equal to the known operand. -/
theorem equal_of_binaryWithData {op : OpKind} {v : Scalar} (h : p.binaryWithData op v = .ok q)
    (hq : q.content = .exact u) : v.equal u = true := by
  obtain ⟨_, _, -, -, ⟨-, hv, rfl⟩ | ⟨-, hv, rfl⟩⟩ := binaryWithData_cases h hq
  · exact hv
  · exact hv

/-- **Comparisons, lane by lane.** -/
theorem LaneValue.comparePadding_sound (ha : p.LaneValue d a) (hb : p.LaneValue d b)
    (hlhs : lhs.Describes p a) (hrhs : rhs.Describes p b)
    (hsame : ∀ x, lhs.content = .unconstrained → rhs.content = .unconstrained →
      lhs.origin = some x → rhs.origin = some x → a = b)
    (h : p.comparePadding mode lhs rhs = .ok q) (hq : q.content = .exact u) :
    ∃ t, Scalar.evalCompare mode a b = .ok t ∧ u = .ofBool t := by
  obtain ⟨hmode, -⟩ := comparePadding_cases h hq
  obtain ⟨t, ht, -⟩ := Scalar.returns_evalCompare hmode (ha.dtype_eq.trans hb.dtype_eq.symm)
  refine ⟨t, ht, Platform.comparePadding_sound h hq hlhs hrhs ?_ ht⟩
  intro x hl hr hx hx'
  exact ⟨hsame x hl hr hx hx', ha.inRange.notNaN⟩

/-- **Binary functions, lane by lane.**  The sentinel that absorbs real data is equal to a value of
a lane, so it can be stored. -/
theorem LaneValue.binaryPadding_sound (ha : p.LaneValue d a) (hb : p.LaneValue d b)
    (hlhs : lhs.Describes p a) (hrhs : rhs.Describes p b) (hdiv : fn = .div → b.isZero = false)
    (h : p.binaryPadding (.binary fn) lhs rhs = .ok q) (hq : q.content = .exact u) :
    ∃ s, Scalar.evalBinary (.binary fn) a b = .ok s ∧ u.equal s = true := by
  have hdtype : a.dtype = b.dtype := ha.dtype_eq.trans hb.dtype_eq.symm
  obtain ⟨s, hs, -⟩ := Scalar.returns_evalBinary fn (ha.dtype_eq ▸ ha.isSupported) hdtype
  refine ⟨s, hs, Scalar.equal_symm ?_⟩
  obtain ⟨v, w, hv, hw, hvw⟩ | ⟨v, e, hv, he, hdata⟩ | ⟨e, w, he, hw, hdata⟩ :=
    binaryPadding_cases h hq
  · refine Scalar.evalBinary_equal hs hvw (hlhs.equal hv) (hrhs.equal hw) fun hdivides =>
      .inl (hdiv ?_)
    cases fn <;> simp_all [OpKind.divides]
  · have hu := ha.round_agrees
      (Scalar.equal_trans (hlhs.equal hv) (equal_of_binaryWithData hdata hq))
    exact binaryWithData_sound hdata hq hu (hlhs.equal hv) (hrhs.inRange he) (.inl hs)
  · have hu := hb.round_agrees
      (Scalar.equal_trans (hrhs.equal hw) (equal_of_binaryWithData hdata hq))
    exact binaryWithData_sound hdata hq hu (hrhs.equal hw) (hlhs.inRange he) (.inr hs)

/-- **Tables are sound lane by lane.**  Take two padding values and, for each, a value which it
describes, both of them values of lanes of one element type; unconstrained values of one origin
stand for one value.  The scalar that a table answers, if it does, is what the comparison or the
binary function makes of the two values.  Only a zero divisor is left out. -/
theorem tables_sound_on_lanes (ha : p.LaneValue d a) (hb : p.LaneValue d b)
    (hlhs : lhs.Describes p a) (hrhs : rhs.Describes p b)
    (hsame : ∀ x, lhs.content = .unconstrained → rhs.content = .unconstrained →
      lhs.origin = some x → rhs.origin = some x → a = b) :
    (∀ mode q u, p.comparePadding mode lhs rhs = .ok q → q.content = .exact u →
        ∃ t, Scalar.evalCompare mode a b = .ok t ∧ u = .ofBool t) ∧
      ∀ fn q u, (fn = .div → b.isZero = false) → p.binaryPadding (.binary fn) lhs rhs = .ok q →
        q.content = .exact u → ∃ s, Scalar.evalBinary (.binary fn) a b = .ok s ∧ u.equal s = true :=
  ⟨fun _ _ _ h hq => ha.comparePadding_sound hb hlhs hrhs hsame h hq,
    fun _ _ _ hdiv h hq => ha.binaryPadding_sound hb hlhs hrhs hdiv h hq⟩

/-- The highest half-precision number stands on the right of real data, of which one lane holds the
negative zero: `t ≤ highest` holds, and the maximum of the two is the highest number. -/
theorem tables_sound_on_lanes_highest :
    default.LaneValue .float16 ⟨.float16, .negZero⟩ ∧
      default.LaneValue .float16 ⟨.float16, .largest .half false⟩ ∧
      (∃ t, Scalar.evalCompare .le ⟨.float16, .negZero⟩ ⟨.float16, .largest .half false⟩ = .ok t ∧
        Scalar.ofBool true = .ofBool t) ∧
      ∃ s, Scalar.evalBinary (.binary .max) ⟨.float16, .negZero⟩
          ⟨.float16, .largest .half false⟩ = .ok s ∧
        Scalar.equal ⟨.float16, .largest .half false⟩ s = true := by
  have ha : default.LaneValue .float16 ⟨.float16, .negZero⟩ :=
    ⟨rfl, rfl, by decide +kernel, by decide +kernel⟩
  have hb : default.LaneValue .float16 ⟨.float16, .largest .half false⟩ :=
    ⟨rfl, rfl, by decide +kernel, by decide +kernel⟩
  have hlhs : PaddingValue.dependent.Describes default ⟨.float16, .negZero⟩ := ha.inRange
  have hrhs : (PaddingValue.exact ⟨.float16, .largest .half false⟩).Describes default
      ⟨.float16, .largest .half false⟩ := Scalar.equal_refl _
  obtain ⟨hcompare, hbinary⟩ :=
    tables_sound_on_lanes ha hb hlhs hrhs (by simp [PaddingValue.dependent, PaddingValue.ofContent])
  exact ⟨ha, hb, hcompare .le (.exact (.ofBool true)) _ (by decide +kernel) rfl,
    hbinary .max (.exact ⟨.float16, .largest .half false⟩) _ (by simp) (by decide +kernel) rfl⟩

end Platform

/-! ## Swapped operands -/

theorem toOption_eq_of_forall {ε α : Type} {x y : Except ε α} (h : ∀ a, x = .ok a ↔ y = .ok a) :
    x.toOption = y.toOption := by
  cases x with
  | ok a => rw [(h a).1 rfl]
  | error e =>
    cases y with
    | ok a => exact absurd ((h a).2 rfl) (by simp)
    | error e' => rfl

namespace Number.Double

/-- Numbers with one key are the same, unless they are zeros, of which the sign decides. -/
theorem max_comm (x y : Double) : x.max y = y.max x := by
  simp only [max, or_comm (a := y = inf false), Bool.or_comm y.isNaN, Bool.and_comm y.isZero]
  split
  · rfl
  · split
    · rfl
    · rename_i hnan
      obtain ⟨hx, hy⟩ : x.isNaN = false ∧ y.isNaN = false := by simpa using hnan
      split
      · rename_i hzero
        obtain ⟨s, rfl⟩ := isZero_iff.1 (Bool.and_eq_true_iff.1 hzero).1
        obtain ⟨t, rfl⟩ := isZero_iff.1 (Bool.and_eq_true_iff.1 hzero).2
        cases s <;> cases t <;> rfl
      · rename_i hzero
        simp only [lt, hx, hy, Bool.not_false, Bool.true_and, decide_eq_true_eq]
        rcases Int.lt_trichotomy x.key y.key with hlt | heq | hgt
        · rw [if_neg (Int.lt_asymm hlt), if_pos hlt]
        · rcases agrees_of_key_eq hx hy heq with rfl | hboth
          · rfl
          · exact absurd (Bool.and_eq_true_iff.2 hboth) hzero
        · rw [if_pos hgt, if_neg (Int.lt_asymm hgt)]

theorem min_comm (x y : Double) : x.min y = y.min x := by
  rw [min_eq_neg_max, max_comm, ← min_eq_neg_max]

end Number.Double

theorem BinaryFn.apply_comm {fn : BinaryFn} (hfn : fn ∈ [BinaryFn.add, .mul, .max, .min])
    (x y : Double) :
    fn.apply x y = fn.apply y x := by
  cases fn with
  | add => exact Double.addIn_comm _ x y
  | mul => exact Double.mulIn_comm _ x y
  | max => exact Double.max_comm x y
  | min => exact Double.min_comm x y
  | sub => simp at hfn
  | div => simp at hfn

theorem Scalar.evalBinary_comm {fn : BinaryFn} (hfn : fn ∈ [BinaryFn.add, .mul, .max, .min])
    {a b s : Scalar} (h : evalBinary (.binary fn) a b = .ok s) :
    evalBinary (.binary fn) b a = .ok s := by
  obtain ⟨hd, -⟩ := evalBinary_eq_ok h
  rw [evalBinary, if_neg (not_not.2 hd)] at h
  rw [evalBinary, if_neg (not_not.2 hd.symm)]
  simpa only [applyBinary, hd, fn.apply_comm hfn b.value a.value] using h

namespace CompareMode

theorem flip_flip (mode : CompareMode) : mode.flip.flip = mode := by cases mode <;> rfl

theorem isKnown_flip (mode : CompareMode) : mode.flip.isKnown = mode.isKnown := by
  cases mode <;> rfl

theorem isReflexive_flip (mode : CompareMode) : mode.flip.isReflexive = mode.isReflexive := by
  cases mode <;> rfl

end CompareMode

namespace Platform

variable {p : Platform} {mode : CompareMode} {op : OpKind} {fn : BinaryFn}
  {lhs rhs q : PaddingValue}

/-- A comparison from the other side. -/
theorem comparePadding_flip (h : p.comparePadding mode lhs rhs = .ok q) :
    p.comparePadding mode.flip rhs lhs = .ok q := by
  rw [comparePadding] at h
  rw [comparePadding, CompareMode.isKnown_flip]
  split at h
  · exact absurd h (by simp)
  rename_i hmode
  rw [if_neg hmode]
  cases hl : lhs.content <;> cases hr : rhs.content <;> simp only [hl, hr] at h ⊢
  case exact.exact v w =>
    cases hvw : Scalar.evalCompare mode v w with
    | error e => simp [hvw, RunError.ofScalar, bind, Except.bind] at h
    | ok t =>
      rw [Scalar.evalCompare_flip hvw]
      rwa [hvw] at h
  case exact.dependent v e => rwa [CompareMode.flip_flip]
  case unconstrained.unconstrained =>
    have hsame : rhs.sameValue lhs = lhs.sameValue rhs := by
      rw [Bool.eq_iff_iff, PaddingValue.sameValue_unconstrained hl hr,
        PaddingValue.sameValue_unconstrained hr hl]
      simp only [and_comm]
    rwa [hsame, CompareMode.isReflexive_flip]
  all_goals first | exact h | exact absurd h (by simp)

/-- Sums and products with real data are unconstrained, on a platform that knows its limits. -/
theorem binaryWithData_eq_ite {v low high : Scalar} (hlow : p.lowest v.dtype = .ok low)
    (hhigh : p.highest v.dtype = .ok high) : p.binaryWithData op v =
      if op = .binary .max ∨ op = .binary .min then p.binaryWithData op v
      else .ok .unconstrained := by
  split
  · rfl
  · rename_i hop
    obtain ⟨hmax, hmin⟩ := not_or.1 hop
    simp [binaryWithData, sentinels, hlow, hhigh, hmax, hmin, bind, Except.bind, pure, Except.pure]

theorem binaryPadding_comm (hfn : fn ∈ [BinaryFn.add, .mul, .max, .min])
    (hp : ∀ v, lhs.content = .exact v ∨ rhs.content = .exact v →
      ∃ low high, p.lowest v.dtype = .ok low ∧ p.highest v.dtype = .ok high)
    (h : p.binaryPadding (.binary fn) lhs rhs = .ok q) :
    p.binaryPadding (.binary fn) rhs lhs = .ok q := by
  rw [binaryPadding] at h ⊢
  cases hl : lhs.content <;> cases hr : rhs.content <;> simp only [hl, hr] at h ⊢
  case exact.exact v w =>
    cases hvw : Scalar.evalBinary (.binary fn) v w with
    | error e => simp [hvw, RunError.ofScalar, bind, Except.bind] at h
    | ok s =>
      rw [Scalar.evalBinary_comm hfn hvw]
      rwa [hvw] at h
  case exact.dependent v e =>
    obtain ⟨low, high, hlow, hhigh⟩ := hp v (.inl hl)
    rwa [← binaryWithData_eq_ite hlow hhigh]
  case dependent.exact e w =>
    obtain ⟨low, high, hlow, hhigh⟩ := hp w (.inr hr)
    rwa [← binaryWithData_eq_ite hlow hhigh] at h
  all_goals first | exact h | exact absurd h (by simp)

/-- **Tables are symmetric.**  A comparison of swapped operands in the flipped mode answers the
same, or both fail.  So does a sum, a product, a maximum or a minimum of swapped operands, on a
platform that knows the limits of the scalars among them. -/
theorem tables_mirror (p : Platform) (lhs rhs : PaddingValue) :
    (∀ mode, (p.comparePadding mode lhs rhs).toOption =
      (p.comparePadding mode.flip rhs lhs).toOption) ∧
      ((∀ v, lhs.content = .exact v ∨ rhs.content = .exact v →
          ∃ low high, p.lowest v.dtype = .ok low ∧ p.highest v.dtype = .ok high) →
        ∀ fn ∈ [BinaryFn.add, .mul, .max, .min],
          (p.binaryPadding (.binary fn) lhs rhs).toOption =
            (p.binaryPadding (.binary fn) rhs lhs).toOption) := by
  refine ⟨fun mode => ?_, fun hp fn hfn => ?_⟩
  · refine toOption_eq_of_forall fun q => ⟨comparePadding_flip, fun h => ?_⟩
    simpa only [CompareMode.flip_flip] using comparePadding_flip h
  · exact toOption_eq_of_forall fun q =>
      ⟨binaryPadding_comm hfn hp, binaryPadding_comm hfn fun v hv => hp v hv.symm⟩

/-- The positive zero is the maximum of the two zeros, and the highest number that of itself and
real data, on either side. -/
theorem tables_mirror_max :
    let swapped (lhs rhs : PaddingValue) (q : PaddingValue) : Prop :=
      (default.binaryPadding (.binary .max) lhs rhs).toOption = some q ∧
        (default.binaryPadding (.binary .max) rhs lhs).toOption = some q
    swapped (.exact ⟨.float32, .negZero⟩) (.exact ⟨.float32, .zero⟩) (.exact ⟨.float32, .zero⟩) ∧
      swapped .dependent (.exact ⟨.int8, .ofInt 127⟩) (.exact ⟨.int8, .ofInt 127⟩) := by
  have hzeros := (tables_mirror default (.exact ⟨.float32, .negZero⟩) (.exact ⟨.float32, .zero⟩)).2
    (by rintro v (h | h) <;> obtain rfl := Content.exact.inj h <;> exact ⟨_, _, rfl, rfl⟩)
    .max (by simp)
  have hdata := (tables_mirror default .dependent (.exact ⟨.int8, .ofInt 127⟩)).2
    (by
      rintro v (h | h)
      · simp [PaddingValue.dependent, PaddingValue.ofContent] at h
      · obtain rfl := Content.exact.inj h
        exact ⟨_, _, rfl, rfl⟩) .max (by simp)
  have hzero : (default.binaryPadding (.binary .max) (.exact ⟨.float32, .negZero⟩)
      (.exact ⟨.float32, .zero⟩)).toOption = some (.exact ⟨.float32, .zero⟩) := by decide +kernel
  have hhighest : (default.binaryPadding (.binary .max) .dependent
      (.exact ⟨.int8, .ofInt 127⟩)).toOption =
        some (.exact ⟨.int8, .ofInt 127⟩) := by decide +kernel
  exact ⟨⟨hzero, hzeros ▸ hzero⟩, hhighest, hdata ▸ hhighest⟩

end Platform
end LanePadding
