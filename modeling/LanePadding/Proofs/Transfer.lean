import LanePadding.Padding.Transfer
import LanePadding.Proofs.Equality

/-!
# Operators on padding values are sound

A padding value describes the value of a lane: an exact one says which scalar it is, up to equality,
and lanes computed from real data are numbers within the limits of the platform.  Whenever the rule
of an operator answers an exact value, it is the scalar that the operator makes of any values which
the operands describe.

## What is here

* `Platform.InRange`, `PaddingValue.Describes` — the meaning of padding values.
* `Platform.Neutral` — the neutral elements of reductions.
* `Platform.comparePadding_cases`, `Platform.binaryPadding_cases` — where the rules answer an exact
  value.
* `PaddingValue.unaryPadding_sound`, `Platform.binaryPadding_sound`, `Platform.comparePadding_sound`
  — one theorem for each rule.  The sentinels of the platform are where the limits matter: what real
  data does not go beyond absorbs it.
-/

set_option autoImplicit false

namespace LanePadding

open Number

theorem eq_ok_of_toOption {ε α : Type} {x : Except ε α} {b : α} (h : x.toOption = some b) :
    x = .ok b := by
  cases x with
  | error e => simp [Except.toOption] at h
  | ok c => rw [Option.some.inj h]

theorem exists_of_map_eq_ok {ε α β : Type} {x : Except ε α} {f : α → β} {b : β}
    (h : x.map f = .ok b) :
    ∃ a, x = .ok a ∧ f a = b := by
  cases x with
  | error e => simp [Except.map] at h
  | ok a => exact ⟨a, rfl, Except.ok.inj h⟩

theorem eq_ok_of_mapError {ε ε' α : Type} {x : Except ε α} {f : ε → ε'} {b : α}
    (h : x.mapError f = .ok b) :
    x = .ok b := by
  cases x with
  | error e =>
    have herror : Except.error (f e) = .ok b := h
    simp at herror
  | ok a => exact congrArg Except.ok (Except.ok.inj h)

/-! ## The meaning of padding values -/

namespace Platform

/-- The platform answers with values of the element type that it is asked for. -/
structure Answers (p : Platform) : Prop where
  lowest : ∀ d s, p.lowest d = .ok s → s.dtype = d ∧ d.round s.value = s.value
  highest : ∀ d s, p.highest d = .ok s → s.dtype = d ∧ d.round s.value = s.value

/-- The scalar is a number within the limits of the platform, where it knows them. -/
structure InRange (p : Platform) (s : Scalar) : Prop where
  notNaN : s.value.isNaN = false
  lowest_le : ∀ low, p.lowest s.dtype = .ok low → low.value.le s.value = true
  le_highest : ∀ high, p.highest s.dtype = .ok high → s.value.le high.value = true

instance (p : Platform) (s : Scalar) : Decidable (p.InRange s) :=
  decidable_of_iff (s.value.isNaN = false ∧
      (∀ low ∈ (p.lowest s.dtype).toOption, low.value.le s.value = true) ∧
      ∀ high ∈ (p.highest s.dtype).toOption, s.value.le high.value = true)
    ⟨fun h => ⟨h.1, fun low hlow => h.2.1 low (by rw [hlow]; rfl), fun high hhigh =>
      h.2.2 high (by rw [hhigh]; rfl)⟩,
        fun h => ⟨h.notNaN, fun low hlow => h.lowest_le low (eq_ok_of_toOption hlow),
        fun high hhigh => h.le_highest high (eq_ok_of_toOption hhigh)⟩⟩

/-- The finite limits of the element types are values of these types. -/
theorem answers_default : default.Answers := by
  constructor
  · intro d s h
    obtain ⟨v, hv, rfl⟩ := exists_of_map_eq_ok (eq_ok_of_mapError h)
    cases d <;> simp only [DType.lowest, DType.intRange?, Except.ok.injEq, reduceCtorEq] at hv
    all_goals
      subst hv
      exact ⟨rfl, by decide +kernel⟩
  · intro d s h
    obtain ⟨v, hv, rfl⟩ := exists_of_map_eq_ok (eq_ok_of_mapError h)
    cases d <;> simp only [DType.highest, DType.intRange?, Except.ok.injEq, reduceCtorEq] at hv
    all_goals
      subst hv
      exact ⟨rfl, by decide +kernel⟩

theorem sentinels_eq_ok {p : Platform} {d : DType} {low high : Scalar}
    (h : p.sentinels d = .ok (low, high)) : p.lowest d = .ok low ∧ p.highest d = .ok high := by
  rw [sentinels] at h
  split at h
  · exact absurd h (by simp)
  · rename_i low' hlow
    split at h
    · exact absurd h (by simp)
    · rename_i high' hhigh
      obtain ⟨rfl, rfl⟩ : low' = low ∧ high' = high := by simpa using h
      exact ⟨hlow, hhigh⟩

/-- The neutral element of a reduction: zero, one, or what no number of the element type is below or
above on the platform. -/
inductive Neutral (p : Platform) (d : DType) : ReduceFn → Scalar → Prop
  | sum : Neutral p d .sum ⟨d, .zero⟩
  | prod : Neutral p d .prod ⟨d, .one⟩
  | max {v : Scalar} (h : p.lowest d = .ok v) : Neutral p d .max v
  | min {v : Scalar} (h : p.highest d = .ok v) : Neutral p d .min v

theorem neutral_of_eq_ok {p : Platform} {fn : ReduceFn} {d : DType} {v : Scalar}
    (h : p.neutral (.reduce fn) d = .ok v) : p.Neutral d fn v := by
  have hlimits : ∀ {f : Scalar × Scalar → Scalar}, (do return f (← p.sentinels d)) = Except.ok v →
      ∃ low high, p.lowest d = .ok low ∧ p.highest d = .ok high ∧ f (low, high) = v := by
    intro f hf
    cases hs : p.sentinels d with
    | error cause => simp [hs, bind, Except.bind] at hf
    | ok limits =>
      obtain ⟨hlow, hhigh⟩ := sentinels_eq_ok hs
      rw [hs] at hf
      exact ⟨_, _, hlow, hhigh, Except.ok.inj hf⟩
  cases fn with
  | sum =>
    obtain ⟨-, rfl⟩ := Scalar.ofDouble_eq_ok (RunError.ofScalar_eq_ok.1 h)
    rw [DType.round_zero]
    exact .sum
  | prod =>
    obtain ⟨-, rfl⟩ := Scalar.ofDouble_eq_ok (RunError.ofScalar_eq_ok.1 h)
    rw [DType.round_one]
    exact .prod
  | max =>
    obtain ⟨low, high, hlow, -, rfl⟩ := hlimits (f := Prod.fst) h
    exact .max hlow
  | min =>
    obtain ⟨low, high, -, hhigh, rfl⟩ := hlimits (f := Prod.snd) h
    exact .min hhigh

end Platform

/-- The value of a lane is one that the padding value allows. -/
def PaddingValue.Describes (q : PaddingValue) (p : Platform) (s : Scalar) : Prop :=
  match q.content with
  | .exact v => s.equal v = true
  | .dependent _ => p.InRange s
  | _ => True

theorem PaddingValue.Describes.equal {q : PaddingValue} {p : Platform} {s v : Scalar}
    (h : q.Describes p s) (hq : q.content = .exact v) : s.equal v = true := by
  rwa [Describes, hq] at h

theorem PaddingValue.Describes.inRange {q : PaddingValue} {p : Platform} {s : Scalar}
    {e : Option PositionExpr} (h : q.Describes p s) (hq : q.content = .dependent e) :
    p.InRange s := by
  rwa [Describes, hq] at h

/-- Unconstrained values are the same only if both come from the same tensor. -/
theorem PaddingValue.sameValue_unconstrained {p q : PaddingValue} (hp : p.content = .unconstrained)
    (hq : q.content = .unconstrained) :
    p.sameValue q = true ↔ ∃ x, p.origin = some x ∧ q.origin = some x := by
  simp only [sameValue, hp, hq, Bool.and_eq_true, Option.isSome_iff_exists, beq_iff_eq]
  constructor
  · rintro ⟨⟨x, hx⟩, heq⟩
    exact ⟨x, hx, heq ▸ hx⟩
  · rintro ⟨x, hx, hx'⟩
    exact ⟨⟨x, hx⟩, hx.trans hx'.symm⟩

/-! ## Comparisons -/

namespace Scalar

theorem dtype_eq_of_evalCompare {mode : CompareMode} {a b : Scalar} {t : Bool}
    (h : evalCompare mode a b = .ok t) : a.dtype = b.dtype := by
  rw [evalCompare] at h
  split at h
  · exact absurd h (by simp)
  · rename_i hd
    exact Decidable.not_not.1 hd

/-- A comparison from the other side. -/
theorem evalCompare_flip {mode : CompareMode} {a b : Scalar} {t : Bool}
    (h : evalCompare mode a b = .ok t) :
    evalCompare mode.flip b a = .ok t := by
  have hd := dtype_eq_of_evalCompare h
  have heq : ∀ x y : Double, x.eq y = y.eq x := fun x y => by
    simp only [Double.eq, eq_comm (a := x.key), Bool.and_comm (!x.isNaN)]
  have hholds : mode.flip.holds? b.value a.value = some t := by
    rw [← evalCompare_eq_ok h]
    cases mode <;> simp [CompareMode.flip, CompareMode.holds?, heq a.value b.value]
  rw [evalCompare, if_neg (by simp [hd]), hholds]

/-- A number compares with itself as the mode says. -/
theorem evalCompare_self {mode : CompareMode} {a : Scalar} {t : Bool} (hnan : a.value.isNaN = false)
    (h : evalCompare mode a a = .ok t) : t = mode.isReflexive := by
  have := evalCompare_eq_ok h
  cases mode <;> simp_all [CompareMode.holds?, CompareMode.isReflexive, Double.lt,
    Double.le, Double.eq]

end Scalar

namespace Platform

variable {p : Platform} {mode : CompareMode} {a b v u : Scalar} {q : PaddingValue} {t : Bool}

/-- Only the sentinels decide how a scalar compares with real data. -/
theorem compareWithData_cases (h : p.compareWithData mode v = .ok q) (hq : q.content = .exact u) :
    ∃ low high, p.lowest v.dtype = .ok low ∧ p.highest v.dtype = .ok high ∧
      (v.equal high = true ∧ mode = .ge ∧ u = .ofBool true ∨
        v.equal high = true ∧ mode = .lt ∧ u = .ofBool false ∨
        v.equal low = true ∧ mode = .le ∧ u = .ofBool true ∨
        v.equal low = true ∧ mode = .gt ∧ u = .ofBool false) := by
  rw [compareWithData] at h
  cases hs : p.sentinels v.dtype with
  | error e => simp [hs, bind, Except.bind] at h
  | ok limits =>
    obtain ⟨low, high⟩ := limits
    obtain ⟨hlow, hhigh⟩ := sentinels_eq_ok hs
    refine ⟨low, high, hlow, hhigh, ?_⟩
    rw [hs] at h
    have hexact : ∀ s : Bool, (.ok (.exact (.ofBool s)) : Except RunError PaddingValue) = .ok q →
        u = .ofBool s := by
      intro s hs
      obtain rfl := Except.ok.inj hs
      exact (Content.exact.inj hq).symm
    simp only [bind, Except.bind, Bool.and_eq_true, beq_iff_eq] at h
    split at h
    · rename_i hc
      exact .inl ⟨hc.1, hc.2, hexact true h⟩
    · split at h
      · rename_i hc
        exact .inr (.inl ⟨hc.1, hc.2, hexact false h⟩)
      · split at h
        · rename_i hc
          exact .inr (.inr (.inl ⟨hc.1, hc.2, hexact true h⟩))
        · split at h
          · rename_i hc
            exact .inr (.inr (.inr ⟨hc.1, hc.2, hexact false h⟩))
          · obtain rfl := Except.ok.inj h
            simp [PaddingValue.unconstrained, PaddingValue.ofContent] at hq

/-- **Comparing a scalar with real data.** -/
theorem compareWithData_sound (h : p.compareWithData mode v = .ok q) (hq : q.content = .exact u)
    (ha : a.equal v = true) (hb : p.InRange b) (ht : Scalar.evalCompare mode a b = .ok t) :
    u = .ofBool t := by
  have hd : b.dtype = v.dtype :=
    (Scalar.dtype_eq_of_evalCompare ht).symm.trans (Scalar.equal_iff.1 ha).1
  obtain ⟨low, high, hlow, hhigh, hcases⟩ := compareWithData_cases h hq
  rw [← hd] at hlow hhigh
  obtain ⟨-, hbh, hble⟩ := Double.le_iff.1 (hb.le_highest high hhigh)
  obtain ⟨hln, -, hleb⟩ := Double.le_iff.1 (hb.lowest_le low hlow)
  have hholds := Scalar.evalCompare_eq_ok ht
  have hat : ∀ {s : Scalar}, v.equal s = true → a.value.isNaN = s.value.isNaN ∧
      a.value.key = s.value.key := by
    intro s hs
    have hagrees := (Scalar.equal_iff.1 (Scalar.equal_trans ha hs)).2
    exact ⟨hagrees.isNaN_eq, hagrees.key_eq⟩
  rcases hcases with ⟨hv, rfl, rfl⟩ | ⟨hv, rfl, rfl⟩ | ⟨hv, rfl, rfl⟩ | ⟨hv, rfl, rfl⟩
  all_goals
    obtain ⟨han, hak⟩ := hat hv
    simp only [CompareMode.holds?, Double.le, Double.lt, Option.some.injEq, han, hbh, hln,
      hb.notNaN] at hholds
    rw [← hholds]
    congr 1
    simp
    omega

/-- **Where a comparison is known**, both operands are scalars, or one of them is a sentinel, or
both are the same unknown lanes. -/
theorem comparePadding_cases {lhs rhs : PaddingValue} (h : p.comparePadding mode lhs rhs = .ok q)
    (hq : q.content = .exact u) : mode.isKnown = true ∧
      ((∃ v w t, lhs.content = .exact v ∧ rhs.content = .exact w ∧
        Scalar.evalCompare mode v w = .ok t ∧
          u = .ofBool t) ∨
        (∃ v e, lhs.content = .exact v ∧ rhs.content = .dependent e ∧
          p.compareWithData mode v = .ok q) ∨
        (∃ e w, lhs.content = .dependent e ∧ rhs.content = .exact w ∧
          p.compareWithData mode.flip w = .ok q) ∨
        (lhs.content = .unconstrained ∧ rhs.content = .unconstrained ∧
          (∃ x, lhs.origin = some x ∧ rhs.origin = some x) ∧ u = .ofBool mode.isReflexive)) := by
  rw [comparePadding] at h
  split at h
  · exact absurd h (by simp)
  rename_i hmode
  refine ⟨by simpa using hmode, ?_⟩
  split at h
  · exact absurd h (by simp)
  · exact absurd h (by simp)
  · rename_i v w hv hw
    cases hvw : Scalar.evalCompare mode v w with
    | error e => simp [hvw, RunError.ofScalar, bind, Except.bind] at h
    | ok t =>
      rw [hvw] at h
      obtain rfl := Except.ok.inj h
      exact .inl ⟨v, w, t, hv, hw, hvw, (Content.exact.inj hq).symm⟩
  · rename_i v e hv he
    exact .inr (.inl ⟨v, e, hv, he, h⟩)
  · rename_i e w he hw
    exact .inr (.inr (.inl ⟨e, w, he, hw, h⟩))
  · obtain rfl := Except.ok.inj h
    simp [PaddingValue.dependent, PaddingValue.ofContent] at hq
  · rename_i hl hr
    split at h
    · rename_i hsame
      obtain rfl := Except.ok.inj h
      exact .inr (.inr (.inr ⟨hl, hr, (PaddingValue.sameValue_unconstrained hl hr).1 hsame,
        (Content.exact.inj hq).symm⟩))
    · obtain rfl := Except.ok.inj h
      simp [PaddingValue.unconstrained, PaddingValue.ofContent] at hq
  all_goals
    obtain rfl := Except.ok.inj h
    simp [PaddingValue.unconstrained, PaddingValue.ofContent] at hq

/-- **What a comparison holds** is what it answers on all lanes that the operands describe, if
unconstrained lanes of one origin are the same. -/
theorem comparePadding_sound {lhs rhs : PaddingValue} (h : p.comparePadding mode lhs rhs = .ok q)
    (hq : q.content = .exact u) (ha : lhs.Describes p a) (hb : rhs.Describes p b)
    (hsame : ∀ x, lhs.content = .unconstrained → rhs.content = .unconstrained →
      lhs.origin = some x → rhs.origin = some x → a = b ∧ a.value.isNaN = false)
    (ht : Scalar.evalCompare mode a b = .ok t) : u = .ofBool t := by
  obtain ⟨-, ⟨v, w, s, hv, hw, hvw, rfl⟩ | ⟨v, e, hv, he, hdata⟩ | ⟨e, w, he, hw, hdata⟩ |
    ⟨hl, hr, ⟨x, hx, hx'⟩, rfl⟩⟩ := comparePadding_cases h hq
  · rw [Scalar.evalCompare_eq hvw ht (Scalar.equal_symm (ha.equal hv))
      (Scalar.equal_symm (hb.equal hw))]
  · exact compareWithData_sound hdata hq (ha.equal hv) (hb.inRange he) ht
  · exact compareWithData_sound hdata hq (hb.equal hw) (ha.inRange he) (Scalar.evalCompare_flip ht)
  · obtain ⟨rfl, hnan⟩ := hsame x hl hr hx hx'
    rw [Scalar.evalCompare_self hnan ht]

/-! ## Binary functions -/

variable {op : OpKind} {s : Scalar}

/-- Only a sentinel that saturates the function survives real data. -/
theorem binaryWithData_cases (h : p.binaryWithData op v = .ok q) (hq : q.content = .exact u) :
    ∃ low high, p.lowest v.dtype = .ok low ∧ p.highest v.dtype = .ok high ∧
      (op = .binary .max ∧ v.equal high = true ∧ u = high ∨
        op = .binary .min ∧ v.equal low = true ∧ u = low) := by
  rw [binaryWithData] at h
  cases hs : p.sentinels v.dtype with
  | error e => simp [hs, bind, Except.bind] at h
  | ok limits =>
    obtain ⟨low, high⟩ := limits
    obtain ⟨hlow, hhigh⟩ := sentinels_eq_ok hs
    refine ⟨low, high, hlow, hhigh, ?_⟩
    rw [hs] at h
    simp only [bind, Except.bind] at h
    split at h
    · rename_i hc
      obtain rfl := Except.ok.inj h
      exact .inl ⟨hc.1, hc.2, (Content.exact.inj hq).symm⟩
    · split at h
      · rename_i hc
        obtain rfl := Except.ok.inj h
        exact .inr ⟨hc.1, hc.2, (Content.exact.inj hq).symm⟩
      · obtain rfl := Except.ok.inj h
        simp [PaddingValue.unconstrained, PaddingValue.ofContent] at hq

/-- A platform that answers in the element type which it is asked for answers what can be stored. -/
theorem Answers.round_agrees (hp : p.Answers) (h : p.binaryWithData op v = .ok q)
    (hq : q.content = .exact u) :
    (u.dtype.round u.value).Agrees u.value := by
  obtain ⟨low, high, hlow, hhigh, ⟨-, -, rfl⟩ | ⟨-, -, rfl⟩⟩ := binaryWithData_cases h hq
  · obtain ⟨hdtype, hround⟩ := hp.highest _ _ hhigh
    exact .inl (hdtype ▸ hround)
  · obtain ⟨hdtype, hround⟩ := hp.lowest _ _ hlow
    exact .inl (hdtype ▸ hround)

/-- **Combining a scalar with real data**, on either side of it.  The sentinel that survives must be
one that can be stored. -/
theorem binaryWithData_sound (h : p.binaryWithData op v = .ok q) (hq : q.content = .exact u)
    (hu : (u.dtype.round u.value).Agrees u.value) (ha : a.equal v = true) (hb : p.InRange b)
    (hs : Scalar.evalBinary op a b = .ok s ∨ Scalar.evalBinary op b a = .ok s) :
    s.equal u = true := by
  obtain ⟨hav, -⟩ := Scalar.equal_iff.1 ha
  have hd : a.dtype = b.dtype := by
    rcases hs with hs | hs
    · exact (Scalar.evalBinary_eq_ok hs).1
    · exact (Scalar.evalBinary_eq_ok hs).1.symm
  obtain ⟨low, high, hlow, hhigh, hcases⟩ := binaryWithData_cases h hq
  rcases hcases with ⟨rfl, hv, rfl⟩ | ⟨rfl, hv, rfl⟩
  · obtain ⟨hdtype, hagrees⟩ := Scalar.equal_iff.1 (Scalar.equal_trans ha hv)
    have hle := hb.le_highest u (by rw [← hd, hav, hhigh])
    obtain ⟨hmax, hmax'⟩ := Double.max_agrees_of_le hagrees hle
    rcases hs with hs | hs
    · exact Scalar.evalBinary_equal_of_agrees (by simp) hs hdtype hu hmax
    · exact Scalar.evalBinary_equal_of_agrees (by simp) hs (hd.symm.trans hdtype) hu hmax'
  · obtain ⟨hdtype, hagrees⟩ := Scalar.equal_iff.1 (Scalar.equal_trans ha hv)
    have hle := hb.lowest_le u (by rw [← hd, hav, hlow])
    obtain ⟨hmin, hmin'⟩ := Double.min_agrees_of_le hagrees hle
    rcases hs with hs | hs
    · exact Scalar.evalBinary_equal_of_agrees (by simp) hs hdtype hu hmin
    · exact Scalar.evalBinary_equal_of_agrees (by simp) hs (hd.symm.trans hdtype) hu hmin'

/-- **Where the result of a binary function is known**, both operands are scalars, or one of them is
a sentinel. -/
theorem binaryPadding_cases {lhs rhs : PaddingValue} (h : p.binaryPadding op lhs rhs = .ok q)
    (hq : q.content = .exact u) :
    (∃ v w, lhs.content = .exact v ∧ rhs.content = .exact w ∧ Scalar.evalBinary op v w = .ok u) ∨
      (∃ v e, lhs.content = .exact v ∧ rhs.content = .dependent e ∧ p.binaryWithData op v = .ok q) ∨
      ∃ e w, lhs.content = .dependent e ∧ rhs.content = .exact w ∧
      p.binaryWithData op w = .ok q := by
  rw [binaryPadding] at h
  split at h
  · exact absurd h (by simp)
  · exact absurd h (by simp)
  · rename_i v w hv hw
    cases hvw : Scalar.evalBinary op v w with
    | error e => simp [hvw, RunError.ofScalar, bind, Except.bind] at h
    | ok r =>
      rw [hvw] at h
      obtain rfl := Except.ok.inj h
      obtain rfl := Content.exact.inj hq
      exact .inl ⟨v, w, hv, hw, hvw⟩
  · rename_i v e hv he
    exact .inr (.inl ⟨v, e, hv, he, h⟩)
  · rename_i e w he hw
    split at h
    · exact .inr (.inr ⟨e, w, he, hw, h⟩)
    · obtain rfl := Except.ok.inj h
      simp [PaddingValue.unconstrained, PaddingValue.ofContent] at hq
  · obtain rfl := Except.ok.inj h
    simp [PaddingValue.dependent, PaddingValue.ofContent] at hq
  all_goals
    obtain rfl := Except.ok.inj h
    simp [PaddingValue.unconstrained, PaddingValue.ofContent] at hq

/-- **What a binary function holds** is what it makes of all lanes that the operands describe,
except that a zero divisor must be the very one that is known. -/
theorem binaryPadding_sound (hp : p.Answers) {lhs rhs : PaddingValue}
    (h : p.binaryPadding op lhs rhs = .ok q) (hq : q.content = .exact u) (ha : lhs.Describes p a)
    (hb : rhs.Describes p b)
    (hz : op.divides = true → ∀ v, rhs.content = .exact v → b.isZero = false ∨ b = v)
    (hs : Scalar.evalBinary op a b = .ok s) : s.equal u = true := by
  obtain ⟨v, w, hv, hw, hvw⟩ | ⟨v, e, hv, he, hdata⟩ | ⟨e, w, he, hw, hdata⟩ :=
    binaryPadding_cases h hq
  · exact Scalar.evalBinary_equal hs hvw (ha.equal hv) (hb.equal hw) fun hdiv => hz hdiv w hw
  · exact binaryWithData_sound hdata hq (hp.round_agrees hdata hq) (ha.equal hv)
      (hb.inRange he) (.inl hs)
  · exact binaryWithData_sound hdata hq (hp.round_agrees hdata hq) (hb.equal hw)
      (ha.inRange he) (.inr hs)

end Platform

/-! ## Unary functions -/

/-- **What a unary function holds** is what it makes of all lanes that the operand describes, except
that a zero divisor must be the very one that is known. -/
theorem PaddingValue.unaryPadding_sound {p : Platform} {op : OpKind} {out : DType}
    {x q : PaddingValue} {a u s : Scalar} (h : x.unaryPadding op out = .ok q)
    (hq : q.content = .exact u) (ha : x.Describes p a)
    (hz : op.divides = true → ∀ v, x.content = .exact v → a.isZero = false ∨ a = v)
    (hs : Scalar.evalUnary op a out = .ok s) : s.equal u = true := by
  rw [unaryPadding] at h
  split at h
  · rename_i v hv
    cases hev : Scalar.evalUnary op v out with
    | error e => simp [hev, RunError.ofScalar, bind, Except.bind] at h
    | ok r =>
      rw [hev] at h
      obtain rfl := Except.ok.inj h
      obtain rfl := Content.exact.inj hq
      by_cases hav : a = v
      · subst hav
        rw [hs] at hev
        obtain rfl := Except.ok.inj hev
        exact Scalar.equal_refl s
      · exact Scalar.evalUnary_equal hs hev (ha.equal hv) fun hdiv =>
          (hz hdiv v hv).resolve_right hav
  · obtain rfl := Except.ok.inj h
    simp [dependent, ofContent] at hq
  · obtain rfl := Except.ok.inj h
    simp [unconstrained, ofContent] at hq

end LanePadding
