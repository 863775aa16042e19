import LanePadding.Proofs.GraphInvariant

/-!
# Who reads the padding of an operand

Two tests ask whether a consumer reads padding lanes of an operand.  Faults are looked for where an
axis of the *operand* is padded and not replicated (`Node.readsOwnPadding`); values are passed on
where an axis of the *consumer* is (`Node.paddingReadsPadding`).  The second test is exact, whatever
the shapes are: it says whether there is a padding lane that reads a padding lane.  The first one
may say too much, since the consumer need not have lanes where the operand has padding.

That happens only if a block is narrowed, which takes an explicit broadcast.  All other operators
give their node the common shape of the operands, and an axis that is not replicated into it is
itself the common axis.  So the two tests are the same.

## What is here

* `Axis.IsJoin.eq_of_not_isBroadcast`, `Workspace.Built.own_eq_out` — axes that are not replicated.
* `Node.Reads.paddingReadsPadding_iff` — the test for padding lanes that read padding lanes is
  exact.
* `Workspace.own_padding_tests_agree` — the two tests are the same.
-/

set_option autoImplicit false

namespace LanePadding

/-! ## Axes that are not replicated -/

/-- An axis that is not replicated into the common one is the common one: a single lane in a smaller
block would be replicated, and there is none in a larger block. -/
theorem Axis.IsJoin.eq_of_not_isBroadcast {axes : List Axis} {a out : Axis} (h : IsJoin axes out)
    (hout : out.Valid) (ha : a ∈ axes) (hnot : ¬a.isBroadcast out = true) : a = out := by
  by_cases hone : a.extent = 1
  · have hpos := hout.1
    rw [isBroadcast_iff] at hnot
    have hextent : out.extent = 1 := by omega
    obtain ⟨-, -, hsizes⟩ := h.single (h.extent_eq_one_iff.1 hextent)
    have hsize : a.size = out.size := by
      have := hsizes a ha
      omega
    cases a
    cases out
    simp_all
  · exact h.wide a ha hone

theorem Axis.getD_eq_fromRight {axes : List Axis} {i : Nat} (hi : i < axes.length) :
    axes.getD i .unit = fromRight axes (axes.length - 1 - i) := by
  rw [fromRight, List.getD_eq_getElem?_getD, List.getD_eq_getElem?_getD,
    List.getElem?_reverse (by omega)]
  congr 2
  omega

namespace Workspace

variable {w : Workspace} {c x : NodeRef}

/-- **Axes that are not replicated are the same**, for all operators but explicit broadcasts. -/
theorem Built.own_eq_out (hw : w.Built) (hc : w.Has c) (hop : (w.node c).op.combines = true)
    (hx : x ∈ (w.node c).inputs) {a : AlignedAxis} (ha : a ∈ (w.node c).alignedAxes (w.node x))
    (hnot : a.isBroadcast = false) : a.own = a.out := by
  obtain ⟨hlength, hjoins⟩ := commonShape_of_broadcastShape (hw.combining c hc hop)
  have hrank : (w.node x).rank ≤ (w.node c).rank :=
    Nat.le_trans (rank_le_maxRank hx) (Nat.le_of_eq hlength.symm)
  obtain ⟨i, hi, rfl⟩ := List.mem_map.1 ha
  have hi : i < (w.node c).axes.length := List.mem_range.1 hi
  have hexpanded : i < (expandToRank (w.node x).axes (w.node c).rank).length := by
    rwa [length_expandToRank hrank]
  -- both axes stand at the same position from the right
  have hown : (expandToRank (w.node x).axes (w.node c).rank).getD i .unit =
      Axis.fromRight (w.node x).axes ((w.node c).axes.length - 1 - i) := by
    rw [Axis.getD_eq_fromRight hexpanded, Axis.fromRight_expandToRank, length_expandToRank hrank]
    rfl
  have hout := Axis.getD_eq_fromRight hi
  have hjoin := hjoins ((w.node c).axes.length - 1 - i) (by omega)
  have hvalid : ((w.node c).axes.getD i .unit).Valid := by
    rw [List.getD_eq_getElem?_getD, List.getElem?_eq_getElem hi]
    exact (hw.wellFormed c hc).valid _ (List.getElem_mem hi)
  simp only [AlignedAxis.isBroadcast, hown, hout] at hnot hvalid ⊢
  refine hjoin.eq_of_not_isBroadcast hvalid (List.mem_map.2 ⟨x, hx, rfl⟩) ?_
  simpa using hnot

end Workspace

/-! ## Padding lanes that read padding lanes -/

namespace Lane

theorem stored_replicate_zero {axes : List Axis} (hvalid : ∀ a ∈ axes, a.Valid) :
    Stored axes (List.replicate axes.length 0) := by
  induction axes with
  | nil => trivial
  | cons a as ih =>
    obtain ⟨hpos, hle⟩ := hvalid a (by simp)
    exact ⟨by simp; omega, ih fun b hb => hvalid b (by simp [hb])⟩

/-- Behind the real lanes of an axis that is not replicated, padding lanes read padding lanes. -/
theorem exists_padding_along {owns outs : List Axis} (hfits : List.Forall₂ Axis.Fits owns outs)
    (houts : ∀ a ∈ outs, a.Valid) {own out : Axis} (hmem : (own, out) ∈ owns.zip outs)
    (hpadded : out.isPadded = true) (hnot : own.isBroadcast out = false) :
    ∃ l, Padding outs l ∧ ¬Real owns (along owns outs l) := by
  induction hfits with
  | nil => simp at hmem
  | @cons own' out' owns outs hfit _ ih =>
    obtain ⟨hpos, hle⟩ := houts out' (by simp)
    have hrest : ∀ a ∈ outs, a.Valid := fun a ha => houts a (by simp [ha])
    rcases List.mem_cons.1 hmem with heq | hmem
    · obtain ⟨rfl, rfl⟩ := Prod.mk.inj heq
      have hcoordinate : ((out.extent.toNat : Nat) : Int) = out.extent :=
        Int.toNat_of_nonneg (by omega)
      have hlt : out.extent < out.size := by simpa [Axis.isPadded] using hpadded
      refine ⟨out.extent.toNat :: List.replicate outs.length 0,
        ⟨⟨?_, stored_replicate_zero hrest⟩, ?_⟩, ?_⟩
      · rwa [hcoordinate]
      · rintro ⟨hreal, -⟩
        omega
      · rintro ⟨hreal, -⟩
        have hextent := hfit.extent_le ⟨hpos, hle⟩
        simp only [hnot, Bool.false_eq_true, if_false] at hreal
        omega
    · obtain ⟨l, ⟨hstored, hreal⟩, hown⟩ := ih hrest hmem
      refine ⟨0 :: l, ⟨⟨?_, hstored⟩, fun h => hreal h.2⟩, fun h => hown h.2⟩
      show (0 : Int) < out'.size
      omega

end Lane

/-- **A consumer passes on padding just if one of its padding lanes reads a padding lane.** -/
theorem Node.Reads.paddingReadsPadding_iff {c x : Node} (h : c.Reads x) (hc : ∀ a ∈ c.axes, a.Valid)
    (hx : ∀ a ∈ x.axes, a.Valid) : c.paddingReadsPadding x = true ↔
      ∃ l, Lane.Padding c.axes l ∧ Lane.Padding x.axes (Lane.source x.axes c.axes l) := by
  constructor
  · intro hreads
    obtain ⟨a, ha, hpadded⟩ := List.any_eq_true.1 hreads
    obtain ⟨hout, hnot⟩ : a.out.isPadded = true ∧ a.isBroadcast = false := by simpa using hpadded
    obtain ⟨l, hl, hown⟩ := Lane.exists_padding_along h.fits hc (h.mem_zip ha) hout hnot
    exact ⟨l, hl, h.stored_source hx hl.1, fun hreal => hown ((h.within_source_iff hl.1).1.1 hreal)⟩
  · rintro ⟨l, hl, -, hreal⟩
    by_contra hnot
    exact hreal (h.real_source_of_replicated hx (Bool.not_eq_true _ ▸ hnot) hl.1)

/-! ## The two tests -/

namespace Workspace

variable {w : Workspace} {c x : NodeRef}

/-- For all operators but explicit broadcasts, the two tests look at the same axes. -/
theorem Built.readsOwnPadding_eq (hw : w.Built) (hc : w.Has c) (hop : (w.node c).op.combines = true)
    (hx : x ∈ (w.node c).inputs) :
    (w.node c).readsOwnPadding (w.node x) = (w.node c).paddingReadsPadding (w.node x) := by
  have hsame : ∀ a ∈ (w.node c).alignedAxes (w.node x),
      (a.own.isPadded && !a.isBroadcast) = (a.out.isPadded && !a.isBroadcast) := by
    intro a ha
    cases hb : a.isBroadcast with
    | true => rw [Bool.not_true, Bool.and_false, Bool.and_false]
    | false => rw [hw.own_eq_out hc hop hx ha hb]
  rw [Bool.eq_iff_iff, Node.readsOwnPadding, Node.paddingReadsPadding, List.any_eq_true,
    List.any_eq_true]
  exact exists_congr fun a => and_congr_right fun ha => by rw [hsame a ha]

/-- **The two tests for reading the padding of an operand agree.**  After any sequence of builder
calls, a unary or binary node that is found to read padding lanes of an operand where the operand is
padded is also found to do so where the node is padded, and the other way around; and this is so
just if a padding lane of the node reads a padding lane of the operand. -/
theorem own_padding_tests_agree (hw : w.Built) (hc : w.Has c)
    (hop : (w.node c).op.kind.isUnary = true ∨ (w.node c).op.kind.isBinary = true)
    (hx : x ∈ (w.node c).inputs) :
    (w.node c).readsOwnPadding (w.node x) = (w.node c).paddingReadsPadding (w.node x) ∧
      ((w.node c).readsOwnPadding (w.node x) = true ↔ ∃ l, Lane.Padding (w.node c).axes l ∧
        Lane.Padding (w.node x).axes (Lane.source (w.node x).axes (w.node c).axes l)) := by
  have hcombines : (w.node c).op.combines = true := by
    cases hkind : (w.node c).op <;> simp_all [Op.kind, OpKind.isUnary, OpKind.isBinary, Op.combines]
  have hpointwise : (w.node c).op.isPointwise = true := by
    cases hkind : (w.node c).op <;> simp_all [Op.combines, Op.isPointwise]
  have hformed := hw.wellFormed c hc
  have hoperand := hw.wellFormed x (hw.wellFormed.has_input hc hx).2
  have hsame := hw.readsOwnPadding_eq hc hcombines hx
  refine ⟨hsame, ?_⟩
  rw [hsame]
  exact (hformed.reads hpointwise x hx).paddingReadsPadding_iff hformed.valid hoperand.valid

/-- A single lane divided by one in a larger block, and the same lane in a block without padding. -/
def resizedLanes : Workspace :=
  (Workspace.empty.addGraph "lanes").calls
    [.placeholder 0 "s" .float32 [⟨8, 1⟩], .placeholder 0 "u" .float32 [⟨32, 1⟩],
      .binary (.binary .div) (.node ⟨0, 0⟩) (.node ⟨0, 1⟩), .broadcast ⟨0, 0⟩ [⟨1, 1⟩]]

/-- The padding of the quotient is computed from that of the divisor, and from the real lane of the
dividend, which is padded as well but replicated. -/
theorem own_padding_tests_agree_quotient :
    resizedLanes.Built ∧
      (∃ l, Lane.Padding [⟨32, 1⟩] l ∧ Lane.Padding [⟨32, 1⟩] (Lane.source [⟨32, 1⟩] [⟨32, 1⟩] l)) ∧
      (resizedLanes.node ⟨0, 2⟩).readsOwnPadding (resizedLanes.node ⟨0, 0⟩) = false ∧
      (resizedLanes.node ⟨0, 2⟩).paddingReadsPadding (resizedLanes.node ⟨0, 0⟩) = false := by
  have hbuilt : resizedLanes.Built := (Built.addGraph "lanes" .empty).calls (by decide)
  have hop : (resizedLanes.node ⟨0, 2⟩).op.kind.isUnary = true ∨
      (resizedLanes.node ⟨0, 2⟩).op.kind.isBinary = true :=
    .inr (by decide)
  obtain ⟨-, hdivisor⟩ :=
    own_padding_tests_agree hbuilt (c := ⟨0, 2⟩) (x := ⟨0, 1⟩) (by decide) hop
    (by decide)
  obtain ⟨hdividend, -⟩ :=
    own_padding_tests_agree hbuilt (c := ⟨0, 2⟩) (x := ⟨0, 0⟩) (by decide) hop
    (by decide)
  have hnot : (resizedLanes.node ⟨0, 2⟩).readsOwnPadding (resizedLanes.node ⟨0, 0⟩) = false := by
    decide
  exact ⟨hbuilt, hdivisor.1 (by decide), hnot, hdividend.symm.trans hnot⟩

/-- An explicit broadcast to a narrower block has no lanes where the operand has padding, so the
tests differ. -/
example : (resizedLanes.node ⟨0, 3⟩).readsOwnPadding (resizedLanes.node ⟨0, 0⟩) = true ∧
    (resizedLanes.node ⟨0, 3⟩).paddingReadsPadding (resizedLanes.node ⟨0, 0⟩) = false := by
  decide

end Workspace
end LanePadding
