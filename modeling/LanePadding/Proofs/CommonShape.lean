import LanePadding.Proofs.Built

/-!
# The common shape of operands

A pointwise operator combines operands of several shapes, aligned to the right.  At each position
all axes with more than one real lane have to be the same, and this axis is the common one; where
there are only single lanes, the common axis is a single lane as well, stored in the largest of
their blocks.

`Workspace.broadcastShape` finds this shape by going through the operands once and joining each with
what was found so far.  On the way an axis may first get a larger block and then be replaced by a
wider axis, so what has been found so far is best described not by how it came about but by the
operands that it is about: it is their `Axis.IsJoin`, which does not look at the order of the
operands.

## What is here

* `Axis.IsJoin` — the common axis at one position; `Axis.IsJoin.of_join` adds one more axis.
* `Axis.fromRight` — the axis at a position, counted from the right.
* `Workspace.CommonShape` — the common shape of some nodes; `Workspace.broadcastShape_eq_ok_iff`
  says that it is found.
* `Workspace.broadcastShape_joins` — when there is a common shape, and what it looks like.
* `Node.Combined` — the node has the common shape of its operands, if it combines them lane by lane.
-/

set_option autoImplicit false

namespace LanePadding

/-! ## One position -/

namespace Axis

/-- The axis `out` is what operands have in common at a position where these are their axes. -/
structure IsJoin (axes : List Axis) (out : Axis) : Prop where
  /-- Axes that do not have a single real lane are all the same, and this is the common one. -/
  wide : ∀ a ∈ axes, a.extent ≠ 1 → a = out
  /-- Single lanes are stored in the largest of their blocks. -/
  single : (∀ a ∈ axes, a.extent = 1) →
    out.extent = 1 ∧ (∃ a ∈ axes, a.size = out.size) ∧ ∀ a ∈ axes, a.size ≤ out.size

/-- The axes can be joined: those with more than one real lane are all the same. -/
def Joinable (axes : List Axis) :
    Prop := ∀ a ∈ axes, ∀ b ∈ axes, a.extent ≠ 1 → b.extent ≠ 1 → a = b

instance (axes : List Axis) : Decidable (Joinable axes) :=
  inferInstanceAs (Decidable (∀ a ∈ axes, ∀ b ∈ axes, a.extent ≠ 1 → b.extent ≠ 1 → a = b))

theorem Joinable.mono {axes axes' : List Axis} (h : Joinable axes) (hsubset : axes' ⊆ axes) :
    Joinable axes' :=
  fun a ha b hb => h a (hsubset ha) b (hsubset hb)

/-- A single lane gives way to any other axis, and if both are single lanes the larger block
counts. -/
theorem join_eq (out axis : Axis) : out.join axis =
    if axis.extent = 1 then some (if out.extent = 1 then ⟨max out.size axis.size, 1⟩ else out)
    else if out.extent = 1 then some axis
    else if axis = out then some out else none := by
  rw [join]
  by_cases heq : axis = out
  · subst heq
    by_cases hone : axis.extent = 1
    · obtain ⟨size, extent⟩ := axis
      obtain rfl : extent = 1 := hone
      simp
    · simp [hone]
  · by_cases haxis : axis.extent = 1 <;> by_cases hout : out.extent = 1 <;> simp [heq, haxis, hout]

namespace IsJoin

theorem joinable {axes : List Axis} {out : Axis} (h : IsJoin axes out) : Joinable axes :=
  fun a ha b hb hwide hwide' => (h.wide a ha hwide).trans (h.wide b hb hwide').symm

variable {axes axes' : List Axis} {out out' axis joined : Axis}

theorem singleton (a : Axis) : IsJoin [a] a where
  wide b hb _ := List.mem_singleton.1 hb
  single h := ⟨h a (by simp), ⟨a, by simp, rfl⟩, by simp⟩

/-- The order of the axes does not matter. -/
theorem congr (h : IsJoin axes out) (hmem : ∀ a, a ∈ axes' ↔ a ∈ axes) : IsJoin axes' out where
  wide a ha := h.wide a ((hmem a).1 ha)
  single hall := by
    obtain ⟨hone, ⟨a, ha, hsize⟩, hle⟩ := h.single fun a ha => hall a ((hmem a).2 ha)
    exact ⟨hone, ⟨a, (hmem a).2 ha, hsize⟩, fun b hb => hle b ((hmem b).1 hb)⟩

theorem extent_eq_one_iff (h : IsJoin axes out) : out.extent = 1 ↔ ∀ a ∈ axes, a.extent = 1 := by
  refine ⟨fun hone a ha => ?_, fun hall => (h.single hall).1⟩
  by_contra hne
  exact hne (h.wide a ha hne ▸ hone)

/-- There is at most one common axis. -/
theorem unique (h : IsJoin axes out) (h' : IsJoin axes out') : out = out' := by
  by_cases hall : ∀ a ∈ axes, a.extent = 1
  · obtain ⟨hone, ⟨a, ha, hsize⟩, hle⟩ := h.single hall
    obtain ⟨hone', ⟨a', ha', hsize'⟩, hle'⟩ := h'.single hall
    have hsizes : out.size = out'.size := Int.le_antisymm (hsize ▸ hle' a ha) (hsize' ▸ hle a' ha')
    cases out
    cases out'
    simp_all
  · push Not at hall
    obtain ⟨a, ha, hne⟩ := hall
    exact (h.wide a ha hne).symm.trans (h'.wide a ha hne)

/-- Joining fails only if there are different axes with more than one real lane. -/
theorem exists_ne_of_join_eq_none (h : IsJoin axes out) (hnone : out.join axis = none) :
    ∃ a ∈ axes, a.extent ≠ 1 ∧ axis.extent ≠ 1 ∧ a ≠ axis := by
  rw [join_eq] at hnone
  split at hnone
  case isTrue => exact absurd hnone (by simp)
  case isFalse haxis =>
    split at hnone
    case isTrue => exact absurd hnone (by simp)
    case isFalse hout =>
      split at hnone
      case isTrue => exact absurd hnone (by simp)
      case isFalse hne =>
        rw [h.extent_eq_one_iff] at hout
        push Not at hout
        obtain ⟨a, ha, hwide⟩ := hout
        obtain rfl := h.wide a ha hwide
        exact ⟨a, ha, hwide, haxis, Ne.symm hne⟩

/-- Whether the new axis or the old ones are wide decides which axis is the common one of all. -/
theorem of_join (h : IsJoin axes out) (hjoin : out.join axis = some joined) :
    IsJoin (axis :: axes) joined := by
  rw [join_eq] at hjoin
  split at hjoin
  case isTrue haxis =>
    obtain rfl := Option.some.inj hjoin
    constructor
    case wide =>
      intro a ha hwide
      rcases List.mem_cons.1 ha with rfl | ha
      · exact absurd haxis hwide
      · obtain rfl := h.wide a ha hwide
        rw [if_neg hwide]
    case single =>
      intro hall
      obtain ⟨hone, ⟨a, ha, hsize⟩, hle⟩ := h.single fun a ha => hall a (by simp [ha])
      rw [if_pos hone]
      refine ⟨rfl, ?_, fun b hb => ?_⟩
      · rcases Int.le_total axis.size out.size with hsizes | hsizes
        · exact ⟨a, by simp [ha], hsize.trans (Int.max_eq_left hsizes).symm⟩
        · exact ⟨axis, by simp, (Int.max_eq_right hsizes).symm⟩
      · rcases List.mem_cons.1 hb with rfl | hb
        · exact Int.le_max_right ..
        · exact Int.le_trans (hle b hb) (Int.le_max_left ..)
  case isFalse haxis =>
    -- the new axis is wide, so it is the common one, and the old ones are single lanes or the same
    have hsame : joined = axis ∧ (out.extent ≠ 1 → out = axis) := by
      split at hjoin
      · rename_i hout
        exact ⟨(Option.some.inj hjoin).symm, fun hne => absurd hout hne⟩
      · split at hjoin
        · rename_i heq
          exact ⟨(Option.some.inj hjoin).symm.trans heq.symm, fun _ => heq.symm⟩
        · exact absurd hjoin (by simp)
    obtain ⟨rfl, hout⟩ := hsame
    constructor
    case wide =>
      intro a ha hwide
      rcases List.mem_cons.1 ha with rfl | ha
      · rfl
      · obtain rfl := h.wide a ha hwide
        exact hout hwide
    case single => exact fun hall => absurd (hall joined (by simp)) haxis

end IsJoin
end Axis

/-! ## Positions -/

namespace Axis

/-- The axis at a position counted from the right, a single lane if there is none. -/
def fromRight (axes : List Axis) (k : Nat) : Axis := axes.reverse.getD k .unit

theorem fromRight_cons (a : Axis) (axes : List Axis) (k : Nat) :
    fromRight (a :: axes) k = if k = axes.length then a else fromRight axes k := by
  simp only [fromRight, List.reverse_cons, List.getD_eq_getElem?_getD]
  rcases Nat.lt_trichotomy k axes.length with hlt | rfl | hgt
  · rw [List.getElem?_append_left (by simpa using hlt), if_neg (by omega)]
  · simp
  · rw [if_neg (by omega), List.getElem?_eq_none (by simp; omega),
      List.getElem?_eq_none (by simp; omega)]

theorem fromRight_of_length_le {axes : List Axis} {k : Nat} (h : axes.length ≤ k) :
    fromRight axes k = .unit := by
  rw [fromRight, List.getD_eq_getElem?_getD, List.getElem?_eq_none (by simpa using h)]
  rfl

/-- Single lanes in front of a shape stand for its missing axes. -/
theorem fromRight_expandToRank (axes : List Axis) (rank k : Nat) :
    fromRight (expandToRank axes rank) k = fromRight axes k := by
  rw [expandToRank]
  induction rank - axes.length with
  | zero => rfl
  | succ m ih =>
    rw [List.replicate_succ, List.cons_append, fromRight_cons, ih]
    split
    · rename_i hk
      rw [fromRight_of_length_le (by simp [hk])]
    · rfl

/-- A shape is given by its axes at all positions. -/
theorem eq_of_fromRight_eq {axes axes' : List Axis} (hlength : axes.length = axes'.length)
    (h : ∀ k < axes.length, fromRight axes k = fromRight axes' k) : axes = axes' := by
  refine List.reverse_injective (List.ext_getElem (by simp [hlength]) fun k hk hk' => ?_)
  have hsame := h k (by simpa using hk)
  rwa [fromRight, fromRight, List.getD_eq_getElem?_getD, List.getD_eq_getElem?_getD,
    List.getElem?_eq_getElem hk, List.getElem?_eq_getElem hk', Option.getD_some,
    Option.getD_some] at hsame

end Axis

/-! ## Whole shapes -/

namespace Workspace

variable {w : Workspace} {op : OpKind}

/-- Shapes of the same rank are joined position by position. -/
theorem join_of_joinAxes {x : NodeRef} {i : Nat} {outs axes joined : List Axis}
    (hlength : outs.length = axes.length) (h : joinAxes op x i outs axes = .ok joined) :
    joined.length = outs.length ∧
      ∀ k < outs.length, (Axis.fromRight outs k).join (Axis.fromRight axes k) =
        some (Axis.fromRight joined k) := by
  induction outs generalizing i axes joined with
  | nil =>
    obtain rfl := List.eq_nil_of_length_eq_zero hlength.symm
    obtain rfl := Except.ok.inj h
    simp
  | cons out outs ih =>
    cases axes with
    | nil => simp at hlength
    | cons axis axes =>
      have htail : outs.length = axes.length := by simpa using hlength
      obtain ⟨j, rest, hj, hrest, rfl⟩ := joinAxes_cons_eq_ok h
      obtain ⟨hlen, hall⟩ := ih htail hrest
      refine ⟨by simp [hlen], fun k hk => ?_⟩
      rw [Axis.fromRight_cons, Axis.fromRight_cons, Axis.fromRight_cons, ← htail, hlen]
      split
      · exact hj
      · exact hall k (by simp at hk; omega)

/-- Where joining shapes fails, joining two axes fails. -/
theorem exists_join_eq_none_of_joinAxes {x : NodeRef} {i : Nat} {outs axes : List Axis}
    {e : BuildError} (hlength : outs.length = axes.length)
    (h : joinAxes op x i outs axes = .error e) :
    ∃ k < outs.length, (Axis.fromRight outs k).join (Axis.fromRight axes k) = none := by
  induction outs generalizing i axes e with
  | nil => simp [joinAxes] at h
  | cons out outs ih =>
    cases axes with
    | nil => simp at hlength
    | cons axis axes =>
      have htail : outs.length = axes.length := by simpa using hlength
      rw [joinAxes] at h
      split at h
      · rename_i hnone
        exact ⟨outs.length, by simp, by simpa [Axis.fromRight_cons, ← htail] using hnone⟩
      · cases hrest : joinAxes op x (i + 1) outs axes with
        | error e' =>
          obtain ⟨k, hk, hnone⟩ := ih htail hrest
          refine ⟨k, by simp; omega, ?_⟩
          rw [Axis.fromRight_cons, Axis.fromRight_cons, ← htail, if_neg (Nat.ne_of_lt hk),
            if_neg (Nat.ne_of_lt hk)]
          exact hnone
        | ok rest => simp [hrest, bind, Except.bind, pure, Except.pure] at h

/-- The axes of nodes at a position counted from the right; one that has no axis there counts as a
single lane. -/
def axesAt (w : Workspace) (xs : List NodeRef) (k : Nat) : List Axis :=
  xs.map fun x => Axis.fromRight (w.node x).axes k

theorem axesAt_subset {xs xs' : List NodeRef} (h : xs ⊆ xs') (k : Nat) :
    w.axesAt xs k ⊆ w.axesAt xs' k :=
  List.map_subset _ h

/-- The shape `out` is what the nodes have in common, given the largest of their ranks. -/
structure CommonShape (w : Workspace) (xs : List NodeRef) (rank : Nat) (out : List Axis) :
    Prop where
  length : out.length = rank
  joins : ∀ k < rank, Axis.IsJoin (w.axesAt xs k) (Axis.fromRight out k)

namespace CommonShape

variable {xs xs' : List NodeRef} {rank : Nat} {out out' : List Axis}

theorem singleton {x : NodeRef} (hx : (w.node x).rank ≤ rank) :
    w.CommonShape [x] rank (expandToRank (w.node x).axes rank) where
  length := length_expandToRank hx
  joins k _ := by
    rw [Axis.fromRight_expandToRank]
    exact .singleton _

theorem congr (h : w.CommonShape xs rank out) (hmem : ∀ x, x ∈ xs' ↔ x ∈ xs) :
    w.CommonShape xs' rank out where
  length := h.length
  joins k hk := (h.joins k hk).congr fun a => by simp [axesAt, hmem]

theorem unique (h : w.CommonShape xs rank out) (h' : w.CommonShape xs rank out') : out = out' :=
  Axis.eq_of_fromRight_eq (h.length.trans h'.length.symm) fun k hk =>
    (h.joins k (h.length ▸ hk)).unique (h'.joins k (h.length ▸ hk))

/-- One more node. -/
theorem of_joinAxes (h : w.CommonShape xs rank out) {y : NodeRef}
    (hy : (w.node y).rank ≤ rank) {i : Nat}
    (hjoin : joinAxes op y i out (expandToRank (w.node y).axes rank) = .ok out') :
    w.CommonShape (y :: xs) rank out' := by
  obtain ⟨hlength, hall⟩ := join_of_joinAxes (h.length.trans (length_expandToRank hy).symm) hjoin
  refine ⟨hlength.trans h.length, fun k hk => (h.joins k hk).of_join ?_⟩
  rw [← hall k (h.length.symm ▸ hk), Axis.fromRight_expandToRank]

theorem exists_not_joinable (h : w.CommonShape xs rank out) {y : NodeRef}
    (hy : (w.node y).rank ≤ rank) {i : Nat} {e : BuildError}
    (hjoin : joinAxes op y i out (expandToRank (w.node y).axes rank) = .error e) :
    ∃ k, ¬Axis.Joinable (w.axesAt (y :: xs) k) := by
  obtain ⟨k, hk, hnone⟩ :=
    exists_join_eq_none_of_joinAxes (h.length.trans (length_expandToRank hy).symm) hjoin
  rw [Axis.fromRight_expandToRank] at hnone
  obtain ⟨a, ha, hwide, hwide', hne⟩ := (h.joins k (h.length ▸ hk)).exists_ne_of_join_eq_none hnone
  exact ⟨k, fun hall => hne (hall a (List.mem_cons_of_mem _ ha) _ List.mem_cons_self hwide hwide')⟩

/-- **All nodes, one after the other.**  What has been found is the common shape of the nodes so
far, so nothing else has to be known about the order in which they came. -/
theorem of_foldlM (h : w.CommonShape xs rank out) {ys : List NodeRef}
    (hys : ∀ y ∈ ys, (w.node y).rank ≤ rank)
    (hfold : ys.foldlM (fun out y => joinAxes op y 0 out (expandToRank (w.node y).axes rank)) out =
      .ok out') :
    w.CommonShape (ys ++ xs) rank out' := by
  induction ys generalizing xs out with
  | nil =>
    obtain rfl := Except.ok.inj hfold
    exact h
  | cons y ys ih =>
    rw [List.foldlM_cons] at hfold
    cases hjoin : joinAxes op y 0 out (expandToRank (w.node y).axes rank) with
    | error e => simp [hjoin, bind, Except.bind] at hfold
    | ok joined =>
      rw [hjoin] at hfold
      have hall := ih (h.of_joinAxes (hys y (by simp)) hjoin)
        (fun z hz => hys z (by simp [hz])) hfold
      exact hall.congr fun z => by simp [or_left_comm]

theorem exists_not_joinable_of_foldlM (h : w.CommonShape xs rank out) {ys : List NodeRef}
    (hys : ∀ y ∈ ys, (w.node y).rank ≤ rank) {e : BuildError}
    (hfold : ys.foldlM (fun out y => joinAxes op y 0 out (expandToRank (w.node y).axes rank)) out =
      .error e) :
    ∃ k, ¬Axis.Joinable (w.axesAt (ys ++ xs) k) := by
  induction ys generalizing xs out with
  | nil => exact absurd hfold (by simp [pure, Except.pure])
  | cons y ys ih =>
    rw [List.foldlM_cons] at hfold
    cases hjoin : joinAxes op y 0 out (expandToRank (w.node y).axes rank) with
    | error e' =>
      obtain ⟨k, hnot⟩ := h.exists_not_joinable (hys y (by simp)) hjoin
      exact ⟨k, fun hall => hnot (hall.mono (axesAt_subset (by simp) k))⟩
    | ok joined =>
      rw [hjoin] at hfold
      obtain ⟨k, hnot⟩ := ih (h.of_joinAxes (hys y (by simp)) hjoin)
        (fun z hz => hys z (by simp [hz])) hfold
      exact ⟨k, fun hall => hnot (hall.mono (axesAt_subset (by simp) k))⟩

end CommonShape

theorem maxRank_eq_zero_or (w : Workspace) (operands : List Operand) :
    w.maxRank operands = 0 ∨ ∃ x ∈ operands.filterMap Operand.node?, (w.node x).rank =
      w.maxRank operands := by
  have hfold : ∀ (xs : List NodeRef) (r : Nat), xs.foldl (fun r x => max r (w.node x).rank) r = r ∨
      ∃ x ∈ xs, (w.node x).rank = xs.foldl (fun r x => max r (w.node x).rank) r := by
    intro xs
    induction xs with
    | nil => exact fun r => .inl rfl
    | cons y ys ih =>
      intro r
      rw [List.foldl_cons]
      rcases ih (max r (w.node y).rank) with heq | ⟨x, hx, heq⟩
      · rw [heq]
        rcases Nat.le_total (w.node y).rank r with hle | hle
        · exact .inl (Nat.max_eq_left hle)
        · exact .inr ⟨y, by simp, (Nat.max_eq_right hle).symm⟩
      · exact .inr ⟨x, by simp [hx], heq⟩
  exact hfold _ 0

theorem maxRank_le_of_subset {operands operands' : List Operand}
    (hsubset : operands.filterMap Operand.node? ⊆ operands'.filterMap Operand.node?) :
    w.maxRank operands ≤ w.maxRank operands' := by
  rcases w.maxRank_eq_zero_or operands with hzero | ⟨x, hx, hrank⟩
  · exact hzero ▸ Nat.zero_le _
  · exact hrank ▸ rank_le_maxRank (hsubset hx)

section

variable {operands : List Operand}

theorem commonShape_of_broadcastShape {axes : List Axis}
    (h : w.broadcastShape op operands = .ok axes) :
    w.CommonShape (operands.filterMap Operand.node?) (w.maxRank operands) axes := by
  have hranks := fun x (hx : x ∈ operands.filterMap Operand.node?) => rank_le_maxRank (w := w) hx
  have hzero := w.maxRank_eq_zero_or operands
  rw [broadcastShape] at h
  generalize w.maxRank operands = rank at h hranks hzero ⊢
  generalize operands.filterMap Operand.node? = xs at h hranks hzero ⊢
  cases xs with
  | nil =>
    obtain rfl := Except.ok.inj h
    obtain rfl : rank = 0 := by simpa using hzero
    exact ⟨rfl, by simp⟩
  | cons x xs =>
    have hall := (CommonShape.singleton (hranks x (by simp))).of_foldlM
      (fun y hy => hranks y (by simp [hy])) h
    exact hall.congr fun z => by simp [or_comm]

theorem exists_not_joinable_of_broadcastShape {e : BuildError}
    (h : w.broadcastShape op operands = .error e) :
    ∃ k, ¬Axis.Joinable (w.axesAt (operands.filterMap Operand.node?) k) := by
  have hranks := fun x (hx : x ∈ operands.filterMap Operand.node?) => rank_le_maxRank (w := w) hx
  rw [broadcastShape] at h
  generalize w.maxRank operands = rank at h hranks ⊢
  generalize operands.filterMap Operand.node? = xs at h hranks ⊢
  cases xs with
  | nil => exact absurd h (by simp)
  | cons x xs =>
    obtain ⟨k, hnot⟩ := (CommonShape.singleton (hranks x (by simp))).exists_not_joinable_of_foldlM
      (fun y hy => hranks y (by simp [hy])) h
    exact ⟨k, fun hall => hnot (hall.mono (axesAt_subset (by simp) k))⟩

/-- At every position, the nodes of a common shape can be joined. -/
theorem CommonShape.joinable {axes : List Axis}
    (h : w.CommonShape (operands.filterMap Operand.node?) (w.maxRank operands) axes) (k : Nat) :
    Axis.Joinable (w.axesAt (operands.filterMap Operand.node?) k) := by
  by_cases hk : k < w.maxRank operands
  · exact (h.joins k hk).joinable
  · intro a ha _ _ hwide
    obtain ⟨x, hx, rfl⟩ := List.mem_map.1 ha
    have hle : (w.node x).axes.length ≤ k := Nat.le_trans (rank_le_maxRank hx) (Nat.le_of_not_lt hk)
    exact absurd (by rw [Axis.fromRight_of_length_le hle]; rfl) hwide

/-- **The common shape is found if there is one.** -/
theorem broadcastShape_eq_ok_iff {axes : List Axis} : w.broadcastShape op operands = .ok axes ↔
    w.CommonShape (operands.filterMap Operand.node?) (w.maxRank operands) axes := by
  refine ⟨commonShape_of_broadcastShape, fun hshape => ?_⟩
  cases hfound : w.broadcastShape op operands with
  | ok axes' => rw [(commonShape_of_broadcastShape hfound).unique hshape]
  | error e =>
    obtain ⟨k, hnot⟩ := exists_not_joinable_of_broadcastShape hfound
    exact absurd (hshape.joinable k) hnot

/-- Only the set of the node operands matters. -/
theorem broadcastShape_congr {operands' : List Operand} {axes : List Axis}
    (hmem : ∀ x, x ∈ operands'.filterMap Operand.node? ↔ x ∈ operands.filterMap Operand.node?)
    (h : w.broadcastShape op operands = .ok axes) : w.broadcastShape op operands' = .ok axes := by
  have hranks : w.maxRank operands' = w.maxRank operands :=
    Nat.le_antisymm (maxRank_le_of_subset fun x => (hmem x).1)
      (maxRank_le_of_subset fun x => (hmem x).2)
  rw [broadcastShape_eq_ok_iff] at h ⊢
  exact hranks ▸ h.congr hmem

end

/-- **The shape of a pointwise operator is the join of the shapes of its operands.**  It exists just
if at every position all axes with more than one real lane are the same.  It has the largest rank of
the operands, and at each position the axis with more than one real lane, or else a single lane in
the largest block.  The order of the operands does not matter. -/
theorem broadcastShape_joins (w : Workspace) (op : OpKind) (operands : List Operand) :
    ((∃ axes, w.broadcastShape op operands = .ok axes) ↔
      ∀ k, Axis.Joinable (w.axesAt (operands.filterMap Operand.node?) k)) ∧
    (∀ axes, w.broadcastShape op operands = .ok axes →
      (∀ x ∈ operands.filterMap Operand.node?, (w.node x).rank ≤ axes.length) ∧
      (axes = [] ∨ ∃ x ∈ operands.filterMap Operand.node?, (w.node x).rank = axes.length) ∧
      ∀ k < axes.length, Axis.IsJoin (w.axesAt (operands.filterMap Operand.node?) k)
        (Axis.fromRight axes k)) ∧
    ∀ operands', operands.Perm operands' → ∀ axes,
      w.broadcastShape op operands = .ok axes ↔ w.broadcastShape op operands' = .ok axes := by
  refine ⟨⟨?_, fun hall => ?_⟩, fun axes h => ?_, fun operands' hperm axes => ?_⟩
  · rintro ⟨axes, h⟩
    exact (commonShape_of_broadcastShape h).joinable
  · cases hfound : w.broadcastShape op operands with
    | ok axes => exact ⟨axes, rfl⟩
    | error e =>
      obtain ⟨k, hnot⟩ := exists_not_joinable_of_broadcastShape hfound
      exact absurd (hall k) hnot
  · obtain ⟨hlength, hjoins⟩ := commonShape_of_broadcastShape h
    rw [hlength]
    refine ⟨fun x hx => rank_le_maxRank hx, ?_, hjoins⟩
    rcases w.maxRank_eq_zero_or operands with hzero | hattained
    · exact .inl (List.eq_nil_of_length_eq_zero (hlength.trans hzero))
    · exact .inr hattained
  · have hmem := fun x => (hperm.filterMap Operand.node?).mem_iff (a := x)
    exact ⟨broadcastShape_congr fun x => (hmem x).symm, broadcastShape_congr hmem⟩

/-- Two single lanes in blocks of different sizes, a matrix, and a vector whose axis differs from
those of the matrix. -/
def mixedShapes : Workspace :=
  (Workspace.empty.addGraph "mixed").calls
    [.placeholder 0 "s" .float32 [⟨8, 1⟩], .placeholder 0 "u" .float32 [⟨32, 1⟩],
      .placeholder 0 "x" .float32 [⟨4, 3⟩, ⟨16, 15⟩], .placeholder 0 "v" .float32 [⟨16, 14⟩]]

/-- The single lanes are joined to a block of 32 lanes, which gives way to the axis of the matrix,
in whatever order the operands come.  The vector cannot be joined to the matrix. -/
theorem broadcastShape_mixedShapes :
    (∀ operands, [.node ⟨0, 0⟩, .symbol "t" .float32, .node ⟨0, 1⟩, .node ⟨0, 2⟩].Perm operands →
      mixedShapes.broadcastShape .cmpSel operands = .ok [⟨4, 3⟩, ⟨16, 15⟩]) ∧
    Axis.IsJoin (mixedShapes.axesAt [⟨0, 0⟩, ⟨0, 1⟩] 0) ⟨32, 1⟩ ∧
    ¬∃ axes, mixedShapes.broadcastShape (.binary .add) [.node ⟨0, 3⟩, .node ⟨0, 2⟩] = .ok axes := by
  obtain ⟨-, -, hperm⟩ := broadcastShape_joins mixedShapes .cmpSel
    [.node ⟨0, 0⟩, .symbol "t" .float32, .node ⟨0, 1⟩, .node ⟨0, 2⟩]
  obtain ⟨-, hjoins, -⟩ :=
    broadcastShape_joins mixedShapes (.binary .add) [.node ⟨0, 0⟩, .node ⟨0, 1⟩]
  obtain ⟨hfound, -, -⟩ :=
    broadcastShape_joins mixedShapes (.binary .add) [.node ⟨0, 3⟩, .node ⟨0, 2⟩]
  refine ⟨fun operands h => (hperm operands h _).1 (by decide), ?_, fun h => ?_⟩
  · exact (hjoins [⟨32, 1⟩] (by decide)).2.2 0 (by decide)
  · exact absurd (hfound.1 h 0) (by decide)

end Workspace

/-! ## Nodes that combine operands -/

/-- Whether the operator combines its operands lane by lane, in their common shape.  An explicit
broadcast is given its shape. -/
def Op.combines : Op → Bool
  | .unary _ | .cast | .binary _ | .compare _ | .select | .cmpSel _ => true
  | _ => false

/-- A node that combines operands has their common shape. -/
def Node.Combined (w : Workspace) (n : Node) : Prop :=
  n.op.combines = true → w.broadcastShape n.op.kind n.operands = .ok n.axes

theorem Node.combined_of_not {w : Workspace} {n : Node} (h : n.op.combines = false) :
    n.Combined w :=
  fun hcombines => absurd (h.symm.trans hcombines) Bool.false_ne_true

namespace Workspace

variable {w w' : Workspace}

theorem maxRank_eq_of_axes {operands : List Operand}
    (h : ∀ x ∈ operands.filterMap Operand.node?, (w'.node x).axes = (w.node x).axes) :
    w'.maxRank operands = w.maxRank operands :=
  List.foldl_ext _ _ _ fun r x hx => by rw [Node.rank, Node.rank, h x hx]

/-- The common shape depends on the shapes of the operands only. -/
theorem broadcastShape_of_axes {op : OpKind} {operands : List Operand} {axes : List Axis}
    (h : ∀ x ∈ operands.filterMap Operand.node?, (w'.node x).axes = (w.node x).axes)
    (hshape : w.broadcastShape op operands = .ok axes) :
    w'.broadcastShape op operands = .ok axes := by
  obtain ⟨hlength, hjoins⟩ := commonShape_of_broadcastShape hshape
  refine broadcastShape_eq_ok_iff.2 ⟨?_, fun k hk => ?_⟩
  · rw [maxRank_eq_of_axes h, hlength]
  · rw [maxRank_eq_of_axes h] at hk
    have haxes : w'.axesAt (operands.filterMap Operand.node?) k =
        w.axesAt (operands.filterMap Operand.node?) k :=
      List.map_congr_left fun x hx => by rw [h x hx]
    exact haxes ▸ hjoins k hk

/-- Operands that all have the same shape have it in common. -/
theorem broadcastShape_of_axes_eq {op : OpKind} {operands : List Operand} {axes : List Axis}
    (hne : operands.filterMap Operand.node? ≠ [])
    (haxes : ∀ x ∈ operands.filterMap Operand.node?, (w.node x).axes = axes) :
    w.broadcastShape op operands = .ok axes := by
  obtain ⟨x, hx⟩ := List.exists_mem_of_ne_nil _ hne
  have hrank : ∀ y ∈ operands.filterMap Operand.node?, (w.node y).rank = axes.length :=
    fun y hy => congrArg List.length (haxes y hy)
  have hmax : w.maxRank operands = axes.length := by
    have hle : axes.length ≤ w.maxRank operands := hrank x hx ▸ rank_le_maxRank hx
    rcases w.maxRank_eq_zero_or operands with hzero | ⟨y, hy, heq⟩
    · omega
    · exact heq.symm.trans (hrank y hy)
  refine broadcastShape_eq_ok_iff.2
    ⟨hmax.symm, fun k _ => (Axis.IsJoin.singleton _).congr fun a => ?_⟩
  rw [axesAt, List.mem_map, List.mem_singleton]
  constructor
  · rintro ⟨y, hy, rfl⟩
    rw [haxes y hy]
  · rintro rfl
    exact ⟨x, hx, by rw [haxes x hx]⟩

theorem broadcastShape_singleton {op : OpKind} (x : NodeRef) :
    w.broadcastShape op [.node x] = .ok (w.node x).axes :=
  broadcastShape_of_axes_eq (by simp [Operand.node?]) (by simp [Operand.node?])

end Workspace
end LanePadding
