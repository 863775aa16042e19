import LanePadding.Analysis.Simulate
import LanePadding.Proofs.Lanes

/-!
# Lanes that a reduction combines

A reduction combines all stored lanes of its operand that agree outside of the reduced axes.
`Lane.into` lists them in the order in which they are stored.

## What is here

* `afterReduce` — what a reduction leaves of a list with an element for each axis: of the axes
  (`Build.axesAfterReduce_eq`) as well as of the coordinates of a lane.
* `Lane.all` — the stored lanes of a tensor; those that are real are the lanes of the tensor without
  its padding (`Lane.filter_real_all`).
* `Lane.into` — the lanes that are combined into one: only padding lanes into a padding lane
  (`Lane.padding_of_mem_into`), and only real ones into a real lane if no reduced axis is padded
  (`Lane.real_of_afterReduce`).
* `Lane.length_into`, `Node.reducedLanes_eq` — a reduction combines as many lanes as the analysis
  counts.
-/

set_option autoImplicit false

namespace LanePadding

/-! ## What a reduction leaves -/

/-- What a reduction over the listed positions leaves of a list whose first element is at position
`i`: nothing of a reduced element, or `z` in its place. -/
def afterReduce {α : Type} (reduced : List Nat) (keep : Bool) (z : α) : Nat → List α → List α
  | _, [] => []
  | i, a :: as =>
    if i ∈ reduced then
      if keep then z :: afterReduce reduced keep z (i + 1) as
      else afterReduce reduced keep z (i + 1) as
    else a :: afterReduce reduced keep z (i + 1) as

theorem Build.axesAfterReduce_eq (axes : List Axis) (reduced : List Nat) (keep : Bool) :
    axesAfterReduce axes reduced keep = afterReduce reduced keep .unit 0 axes := by
  have hfrom : ∀ (as : List Axis) (i : Nat),
      ((List.range as.length).filterMap fun j =>
        if j + i ∉ reduced then as[j]? else if keep then some .unit else none) =
      afterReduce reduced keep .unit i as := by
    intro as
    induction as with
    | nil => exact fun _ => rfl
    | cons a as ih =>
      intro i
      have hshift : ((List.range as.length).map Nat.succ).filterMap (fun j =>
          if j + i ∉ reduced then (a :: as)[j]? else if keep then some .unit else none) =
            afterReduce reduced keep .unit (i + 1) as := by
        rw [← ih (i + 1), List.filterMap_map]
        refine congrArg (fun f => (List.range as.length).filterMap f) ?_
        funext j
        simp [Nat.add_assoc, Nat.add_comm 1 i]
      rw [List.length_cons, List.range_succ_eq_map, List.filterMap_cons, hshift, afterReduce]
      by_cases hi : i ∈ reduced <;> cases keep <;> simp [hi]
  exact hfrom axes 0

namespace Lane

section AfterReduce

variable {reduced : List Nat} {keep : Bool} {i : Nat} {axes : List Axis} {l : Lane}
  {bound : Axis → Int}

/-- A reduced lane is within the bounds of the reduced axes. -/
theorem Within.afterReduce (hbound : 0 < bound .unit) (h : Within bound axes l) :
    Within bound (LanePadding.afterReduce reduced keep .unit i axes)
      (LanePadding.afterReduce reduced keep 0 i l) := by
  induction axes generalizing l i with
  | nil => cases l <;> simp_all [LanePadding.afterReduce]
  | cons a as ih =>
    cases l with
    | nil => simp at h
    | cons c cs =>
      have hrest := ih (i := i + 1) h.2
      rw [LanePadding.afterReduce, LanePadding.afterReduce]
      split
      · split
        · exact ⟨hbound, hrest⟩
        · exact hrest
      · exact ⟨h.1, hrest⟩

/-- If no reduced axis is padded, only real lanes are combined into a real lane. -/
theorem real_of_afterReduce
    (hreduced : ∀ j a, axes[j]? = some a → i + j ∈ reduced → a.isPadded = false) (h : Stored axes l)
    (hreal : Real (afterReduce reduced keep .unit i axes) (afterReduce reduced keep 0 i l)) :
    Real axes l := by
  induction axes generalizing l i with
  | nil => cases l <;> simp_all
  | cons a as ih =>
    cases l with
    | nil => simp at h
    | cons c cs =>
      have hrest : ∀ j b, as[j]? = some b → i + 1 + j ∈ reduced → b.isPadded = false := by
        intro j b hb hj
        exact hreduced (j + 1) b (by simpa using hb) (by rwa [Nat.add_comm j 1, ← Nat.add_assoc])
      rw [afterReduce, afterReduce] at hreal
      by_cases hi : i ∈ reduced
      · have hpadded : a.isPadded = false := hreduced 0 a (by simp) hi
        simp only [Axis.isPadded, decide_eq_false_iff_not, Int.not_lt] at hpadded
        have hreal' : Real (afterReduce reduced keep .unit (i + 1) as)
            (afterReduce reduced keep 0 (i + 1) cs) := by
          rw [if_pos hi, if_pos hi] at hreal
          cases keep with
          | true => exact hreal.2
          | false => exact hreal
        exact ⟨Int.lt_of_lt_of_le h.1 hpadded, ih hrest h.2 hreal'⟩
      · rw [if_neg hi, if_neg hi] at hreal
        exact ⟨hreal.1, ih hrest h.2 hreal.2⟩

/-- Every lane of the result is combined from some lane, a real one from a real lane. -/
theorem exists_afterReduce (hvalid : ∀ a ∈ axes, a.Valid)
    (h : Stored (afterReduce reduced keep .unit i axes) l) :
    ∃ m, Stored axes m ∧ afterReduce reduced keep 0 i m = l ∧
      (Real (afterReduce reduced keep .unit i axes) l → Real axes m) := by
  induction axes generalizing l i with
  | nil =>
    cases l with
    | nil => exact ⟨[], trivial, rfl, fun _ => trivial⟩
    | cons c cs => simp [afterReduce] at h
  | cons a as ih =>
    obtain ⟨hpos, hle⟩ := hvalid a (by simp)
    have hvalid' : ∀ b ∈ as, b.Valid := fun b hb => hvalid b (by simp [hb])
    have hzero : ((0 : Nat) : Int) < a.size := by simp only [Int.ofNat_zero]; omega
    rw [afterReduce] at h ⊢
    by_cases hi : i ∈ reduced
    · rw [if_pos hi] at h ⊢
      cases keep with
      | true =>
        cases l with
        | nil => simp at h
        | cons c cs =>
          obtain ⟨hc, hcs⟩ := h
          obtain ⟨m, hm, hafter, hreal⟩ := ih hvalid' hcs
          have hc0 : c = 0 := by
            simp only [Axis.unit, Axis.aligned] at hc
            omega
          refine ⟨0 :: m, ⟨hzero, hm⟩, ?_, fun hr => ⟨hpos, hreal hr.2⟩⟩
          rw [afterReduce, if_pos hi, if_pos rfl, hafter, hc0]
      | false =>
        obtain ⟨m, hm, hafter, hreal⟩ := ih hvalid' h
        refine ⟨0 :: m, ⟨hzero, hm⟩, ?_, fun hr => ⟨hpos, hreal hr⟩⟩
        rw [afterReduce, if_pos hi, if_neg Bool.false_ne_true, hafter]
    · rw [if_neg hi] at h ⊢
      cases l with
      | nil => simp at h
      | cons c cs =>
        obtain ⟨m, hm, hafter, hreal⟩ := ih hvalid' h.2
        refine ⟨c :: m, ⟨h.1, hm⟩, ?_, fun hr => ⟨hr.1, hreal hr.2⟩⟩
        rw [afterReduce, if_neg hi, hafter]

end AfterReduce

/-! ## All lanes of a tensor -/

/-- The stored lanes of a tensor, in the order in which they are stored. -/
def all : List Axis → List Lane
  | [] => [[]]
  | a :: as => (List.range a.size.toNat).flatMap fun c => (all as).map (c :: ·)

theorem mem_all {axes : List Axis} {l : Lane} : l ∈ all axes ↔ Stored axes l := by
  induction axes generalizing l with
  | nil => cases l <;> simp [all]
  | cons a as ih =>
    simp only [all, List.mem_flatMap, List.mem_range, List.mem_map]
    constructor
    · rintro ⟨c, hc, m, hm, rfl⟩
      exact ⟨by omega, ih.1 hm⟩
    · intro h
      cases l with
      | nil => simp at h
      | cons c cs => exact ⟨c, by have := h.1; omega, cs, ih.2 h.2, rfl⟩

/-- The stored lanes that a reduction combines into the lane `l`. -/
def into (axes : List Axis) (reduced : List Nat) (keep : Bool) (l : Lane) : List Lane :=
  (all axes).filter fun m => afterReduce reduced keep 0 0 m = l

/-- The number of lanes that are combined into one. -/
def reducedCount (reduced : List Nat) : Nat → List Axis → Nat
  | _, [] => 1
  | i, a :: as =>
    if i ∈ reduced then a.size.toNat * reducedCount reduced (i + 1) as
      else reducedCount reduced (i + 1) as

theorem reducedCount_pos {axes : List Axis} (hvalid : ∀ a ∈ axes, a.Valid)
    (reduced : List Nat) (i : Nat) :
    0 < reducedCount reduced i axes := by
  induction axes generalizing i with
  | nil => exact Nat.one_pos
  | cons a as ih =>
    have ih := ih (fun b hb => hvalid b (by simp [hb])) (i + 1)
    obtain ⟨hpos, hle⟩ := hvalid a (by simp)
    rw [reducedCount]
    split
    · exact Nat.mul_pos (by omega) ih
    · exact ih

theorem length_flatMap_range {α : Type} {f : Nat → List α} {k : Nat}
    (h : ∀ c, (f c).length = k) (n : Nat) :
    ((List.range n).flatMap f).length = n * k := by
  induction n with
  | zero => rw [Nat.zero_mul]; rfl
  | succ n ih =>
    rw [List.range_succ, List.flatMap_append, List.length_append, ih, List.flatMap_singleton,
      h, Nat.succ_mul]

/-- A range has at most one element of a given value. -/
theorem flatMap_range_ite {α : Type} (n d : Nat) (as : List α) :
    (List.range n).flatMap (fun c => if c = d then as else []) = if d < n then as else [] := by
  induction n with
  | zero => rfl
  | succ n ih =>
    rw [List.range_succ, List.flatMap_append, ih, List.flatMap_singleton]
    by_cases hdn : d = n
    · simp [hdn]
    · have hlt : d < n + 1 ↔ d < n := by omega
      simp only [hlt, Ne.symm hdn, if_false, List.append_nil]

theorem length_filter_all {reduced : List Nat} {keep : Bool} {i : Nat} {axes : List Axis} {l : Lane}
    (hl : Stored (afterReduce reduced keep .unit i axes) l) :
    ((all axes).filter fun m => afterReduce reduced keep 0 i m = l).length =
      reducedCount reduced i axes := by
  induction axes generalizing l i with
  | nil =>
    obtain rfl : l = [] := by cases l <;> simp_all [afterReduce]
    rfl
  | cons a as ih =>
    have hsplit : ((all (a :: as)).filter fun m => afterReduce reduced keep 0 i m = l) =
        (List.range a.size.toNat).flatMap fun c =>
          ((all as).filter fun m => afterReduce reduced keep 0 i (c :: m) = l).map (c :: ·) := by
      rw [all, List.filter_flatMap]
      simp [List.filter_map, Function.comp_def]
    rw [hsplit, reducedCount]
    by_cases hi : i ∈ reduced
    · -- every coordinate on a reduced axis counts
      rw [if_pos hi]
      refine length_flatMap_range (fun c => ?_) _
      rw [List.length_map]
      rw [afterReduce, if_pos hi] at hl
      cases keep with
      | true =>
        cases l with
        | nil => simp at hl
        | cons d ds =>
          obtain rfl : d = 0 := by
            have := hl.1
            simp only [Axis.unit, Axis.aligned] at this
            omega
          rw [← ih hl.2]
          simp [afterReduce, hi]
      | false =>
        rw [← ih hl]
        simp [afterReduce, hi]
    · rw [if_neg hi]
      rw [afterReduce, if_neg hi] at hl
      cases l with
      | nil => simp at hl
      | cons d ds =>
        have heach : ∀ c, ((all as).filter fun m => afterReduce reduced keep 0 i (c :: m) =
            d :: ds).map (c :: ·) = if c = d then
              ((all as).filter fun m => afterReduce reduced keep 0 (i + 1) m = ds).map (d :: ·)
            else [] := by
          intro c
          by_cases hcd : c = d
          · rw [if_pos hcd]
            simp [afterReduce, hi, hcd]
          · simp [afterReduce, hi, hcd]
        have hd : d < a.size.toNat := by
          have := hl.1
          omega
        simp only [heach, flatMap_range_ite, if_pos hd, List.length_map]
        exact ih hl.2

section Into

variable {axes : List Axis} {reduced : List Nat} {keep : Bool} {l m : Lane}

theorem mem_into : m ∈ into axes reduced keep l ↔
      Stored axes m ∧ afterReduce reduced keep 0 0 m = l := by
  rw [into, List.mem_filter, mem_all, decide_eq_true_iff]

theorem length_into (hl : Stored (afterReduce reduced keep .unit 0 axes) l) :
    (into axes reduced keep l).length = reducedCount reduced 0 axes := length_filter_all hl

/-- Only padding lanes are combined into a padding lane. -/
theorem padding_of_mem_into (hl : Padding (afterReduce reduced keep .unit 0 axes) l)
    (hm : m ∈ into axes reduced keep l) : Padding axes m := by
  obtain ⟨hstored, rfl⟩ := mem_into.1 hm
  exact ⟨hstored, fun hreal => hl.2 (hreal.afterReduce (by decide))⟩

end Into

end Lane

/-- If no reduced axis is padded, only real lanes are combined into a real lane. -/
theorem Node.real_of_mem_into {x : Node} {axes : List Nat} {keep : Bool} {l m : Lane}
    (hpadded : (x.paddedAxes.filter (· ∈ axes)).isEmpty = true)
    (hl : Lane.Real (afterReduce axes keep .unit 0 x.axes) l)
    (hm : m ∈ Lane.into x.axes axes keep l) :
    Lane.Real x.axes m := by
  obtain ⟨hstored, rfl⟩ := Lane.mem_into.1 hm
  refine Lane.real_of_afterReduce (fun j b hb hj => ?_) hstored hl
  rw [Nat.zero_add] at hj
  have hlt : j < x.rank := (List.getElem?_eq_some_iff.1 hb).1
  have hnot : j ∉ x.paddedAxes := fun hmem =>
    List.filter_eq_nil_iff.1 (List.isEmpty_iff.1 hpadded) j hmem (decide_eq_true hj)
  simpa [paddedAxes, hlt, List.getD, hb] using hnot

/-- **The analysis counts the lanes that are combined**, as a 64-bit integer. -/
theorem Node.reducedLanes_eq {x : Node} {axes : List Nat} (hvalid : ∀ a ∈ x.axes, a.Valid)
    (haxes : axes = (List.range x.rank).filter (· ∈ axes)) :
    RunM.reducedLanes x axes = Text.wrap (Lane.reducedCount axes 0 x.axes) := by
  have hfold : ∀ (as : List Axis) (i : Nat) (z : Int), (∀ a ∈ as, a.Valid) →
      (∀ j, x.axes.getD (i + j) .unit = as.getD j .unit) →
      ((List.range' i as.length).filter (· ∈ axes)).foldl
        (fun count k => Text.wrap (count * (x.axes.getD k .unit).size)) (Text.wrap z) =
      Text.wrap (z * (Lane.reducedCount axes i as : Nat)) := by
    intro as
    induction as with
    | nil =>
      intro i z _ _
      simp [Lane.reducedCount]
    | cons a as ih =>
      intro i z hvalid hat
      have hvalid' : ∀ b ∈ as, b.Valid := fun b hb => hvalid b (by simp [hb])
      have hat' : ∀ j, x.axes.getD (i + 1 + j) .unit = as.getD j .unit := by
        intro j
        have := hat (j + 1)
        rwa [← Nat.add_assoc, Nat.add_right_comm] at this
      rw [List.length_cons, List.range'_succ, Lane.reducedCount]
      by_cases hi : i ∈ axes
      · obtain ⟨hpos, hle⟩ := hvalid a (by simp)
        have hsize : ((a.size.toNat : Nat) : Int) = a.size := by omega
        have hwrap : Text.wrap (Text.wrap z * (x.axes.getD i .unit).size) =
            Text.wrap (z * a.size) := by
          rw [show x.axes.getD i .unit = a from hat 0]
          exact Int.bmod_mul_bmod
        rw [List.filter_cons_of_pos (by simpa using hi), List.foldl_cons, hwrap,
          ih _ _ hvalid' hat', if_pos hi, Int.natCast_mul, hsize, Int.mul_assoc]
      · rw [List.filter_cons_of_neg (by simpa using hi), ih _ _ hvalid' hat', if_neg hi]
  have hone : Text.wrap 1 = 1 := by decide
  have := hfold x.axes 0 1 hvalid fun j => by rw [Nat.zero_add]
  rw [hone, Int.one_mul, ← List.range_eq_range', show x.axes.length = x.rank from rfl,
    ← haxes] at this
  exact this

/-! ## Tensors without padding -/

/-- The axes without their padding lanes. -/
def logicalShape (axes : List Axis) : List Axis := axes.map fun a => .aligned a.extent

namespace Lane

theorem within_map {bound : Axis → Int} {f : Axis → Axis} {axes : List Axis} {l : Lane} :
    Within bound (axes.map f) l ↔ Within (fun a => bound (f a)) axes l := by
  induction axes generalizing l with
  | nil => cases l <;> simp
  | cons a as ih => cases l <;> simp [ih]

/-- The lanes of a tensor without padding are the real ones. -/
theorem stored_logicalShape {axes : List Axis} {l : Lane} :
    Stored (logicalShape axes) l ↔ Real axes l :=
  within_map

theorem real_logicalShape {axes : List Axis} {l : Lane} :
    Real (logicalShape axes) l ↔ Real axes l :=
  within_map

/-- The real lanes come in the order of the tensor without padding. -/
theorem filter_real_all {axes : List Axis} (hvalid : ∀ a ∈ axes, a.Valid) :
    (all axes).filter (fun l => Real axes l) = all (logicalShape axes) := by
  induction axes with
  | nil => rfl
  | cons a as ih =>
    obtain ⟨hpos, hle⟩ := hvalid a (by simp)
    have ih := ih fun b hb => hvalid b (by simp [hb])
    have hreal : ∀ c : Nat, (c : Int) < a.extent →
        ((all as).map (c :: ·)).filter (fun l => Real (a :: as) l) =
          (all (logicalShape as)).map (c :: ·) := by
      intro c hc
      rw [← ih, List.filter_map]
      simp [Function.comp_def, hc]
    have hpadding : ∀ c : Nat, ¬(c : Int) < a.extent →
        ((all as).map (c :: ·)).filter (fun l => Real (a :: as) l) = [] := by
      intro c hc
      rw [List.filter_map]
      simp [Function.comp_def, hc]
    have hrange : List.range a.size.toNat = List.range a.extent.toNat ++
        (List.range (a.size.toNat - a.extent.toNat)).map (a.extent.toNat + ·) := by
      rw [← List.range_add]
      congr 1
      omega
    have hfront : (List.range a.extent.toNat).flatMap (fun c =>
        ((all as).map (c :: ·)).filter (fun l => Real (a :: as) l)) =
          (List.range a.extent.toNat).flatMap fun c => (all (logicalShape as)).map (c :: ·) := by
      refine List.flatMap_congr fun c hc => hreal c ?_
      have := List.mem_range.1 hc
      omega
    have hback : ((List.range (a.size.toNat - a.extent.toNat)).map (a.extent.toNat + ·)).flatMap
        (fun c =>
        ((all as).map (c :: ·)).filter (fun l => Real (a :: as) l)) = [] := by
      rw [List.flatMap_eq_nil_iff]
      intro c hc
      obtain ⟨j, -, rfl⟩ := List.mem_map.1 hc
      exact hpadding _ (by omega)
    rw [all, List.filter_flatMap, hrange, List.flatMap_append, hfront, hback, List.append_nil]
    rfl

/-- Real lanes read the same lanes with and without padding. -/
theorem along_logicalShape {owns outs : List Axis} {l : Lane} (hl : Real outs l) :
    along (logicalShape owns) (logicalShape outs) l = along owns outs l := by
  induction owns generalizing outs l with
  | nil => cases outs <;> cases l <;> rfl
  | cons own owns ih =>
    cases outs with
    | nil => cases l <;> rfl
    | cons out outs =>
      cases l with
      | nil => rfl
      | cons c cs =>
        have hcoord : (if (Axis.aligned own.extent).isBroadcast
            (.aligned out.extent) then 0 else c) = if own.isBroadcast out then 0 else c := by
          have := hl.1
          have hlogical : (Axis.aligned own.extent).isBroadcast (.aligned out.extent) = true ↔
              own.extent = 1 ∧ (1 < out.extent ∨ own.extent < out.extent) := Axis.isBroadcast_iff
          simp only [hlogical, Axis.isBroadcast_iff]
          split <;> split <;> omega
        have hrest := ih hl.2
        simp only [logicalShape, List.map_cons, along] at hrest ⊢
        rw [hcoord, hrest]

theorem source_logicalShape {own out : List Axis} {l : Lane} (hl : Real out l) :
    source (logicalShape own) (logicalShape out) l = source own out l := by
  have hdrop : ∀ k, (logicalShape out).drop k = logicalShape (out.drop k) :=
    fun k => by simp [logicalShape]
  have hlength : ∀ axes, (logicalShape axes).length = axes.length := fun axes => List.length_map ..
  rw [source, source, hdrop, hlength, hlength, along_logicalShape (hl.drop _)]

end Lane
end LanePadding
