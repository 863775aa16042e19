import LanePadding.Proofs.Built

/-!
# Lanes of tensors

A lane is given by its coordinates, one for each axis.  It is *stored* if all of them are within the
sizes, and *real* if they are even within the logical extents; the other stored lanes are padding.

A consumer reads an operand in the lane that `Lane.source` says: axes are aligned to the right, and
where an axis of the operand is replicated the coordinate is zero.  The predicates of the analysis
about a consumer and its operand are about just this: which of the lanes that are read are real.

## What is here

* `Lane.Stored`, `Lane.Real`, `Lane.Padding` — the two kinds of lanes.
* `Lane.source` — the lane of an operand that is read.
* `Node.Reads.real_source` — real lanes are computed from real lanes.
* `Node.Reads.padding_source` — unless replicated lanes reach the padding of a consumer, its padding
  lanes read padding lanes of the operand.
* `Node.Reads.real_source_of_replicated`, `Node.Reads.readsOwnPadding_of_padding` — who reads
  padding lanes at all.
-/

set_option autoImplicit false

namespace LanePadding

/-! ## Kinds of lanes -/

/-- The coordinates of a lane of a tensor, one for each axis. -/
abbrev Lane : Type := List Nat

namespace Lane

/-- There is a coordinate for each axis, and all of them are below the bounds. -/
def Within (bound : Axis → Int) : List Axis → Lane → Prop
  | [], [] => True
  | a :: as, c :: cs => (c : Int) < bound a ∧ Within bound as cs
  | _, _ => False

instance decidableWithin (bound : Axis → Int) :
    (axes : List Axis) → (l : Lane) → Decidable (Within bound axes l)
  | [], [] => inferInstanceAs (Decidable True)
  | _ :: as, _ :: cs => @instDecidableAnd _ _ _ (decidableWithin bound as cs)
  | [], _ :: _ => inferInstanceAs (Decidable False)
  | _ :: _, [] => inferInstanceAs (Decidable False)

/-- The lane is stored in a tensor with these axes. -/
abbrev Stored (axes : List Axis) (l : Lane) : Prop := Within Axis.size axes l

/-- The lane holds real data. -/
abbrev Real (axes : List Axis) (l : Lane) : Prop := Within Axis.extent axes l

/-- The lane is stored, but outside of the logical extents. -/
abbrev Padding (axes : List Axis) (l : Lane) : Prop := Stored axes l ∧ ¬Real axes l

section Within

variable {bound bound' : Axis → Int}

@[simp] theorem within_cons {a : Axis} {as : List Axis} {c : Nat} {cs : Lane} :
    Within bound (a :: as) (c :: cs) ↔ (c : Int) < bound a ∧ Within bound as cs := Iff.rfl

@[simp] theorem within_nil : Within bound [] [] ↔ True := Iff.rfl

@[simp] theorem not_within_nil_cons {c : Nat} {cs : Lane} : ¬Within bound [] (c :: cs) := id

@[simp] theorem not_within_cons_nil {a : Axis} {as : List Axis} : ¬Within bound (a :: as) [] := id

theorem Within.length_eq {axes : List Axis} {l : Lane} (h : Within bound axes l) :
    l.length = axes.length := by
  induction axes generalizing l with
  | nil => cases l <;> simp_all
  | cons a as ih =>
    cases l with
    | nil => simp at h
    | cons c cs => simp [ih h.2]

theorem Within.mono {axes : List Axis} {l : Lane} (h : Within bound axes l)
    (hle : ∀ a ∈ axes, bound a ≤ bound' a) : Within bound' axes l := by
  induction axes generalizing l with
  | nil => cases l <;> simp_all
  | cons a as ih =>
    cases l with
    | nil => simp at h
    | cons c cs =>
      exact ⟨Int.lt_of_lt_of_le h.1 (hle a (by simp)), ih h.2 fun b hb => hle b (by simp [hb])⟩

theorem within_append {as bs : List Axis} {l m : Lane} (hlen : l.length = as.length) :
    Within bound (as ++ bs) (l ++ m) ↔ Within bound as l ∧ Within bound bs m := by
  induction as generalizing l with
  | nil =>
    obtain rfl : l = [] := List.eq_nil_of_length_eq_zero hlen
    simp
  | cons a as ih =>
    cases l with
    | nil => simp at hlen
    | cons c cs => simp [ih (by simpa using hlen), and_assoc]

theorem Within.drop {axes : List Axis} {l : Lane} (h : Within bound axes l) (k : Nat) :
    Within bound (axes.drop k) (l.drop k) := by
  induction k generalizing axes l with
  | zero => exact h
  | succ k ih =>
    cases axes with
    | nil => cases l <;> simp_all
    | cons a as =>
      cases l with
      | nil => simp at h
      | cons c cs => exact ih h.2

theorem Within.take {axes : List Axis} {l : Lane} (h : Within bound axes l) (k : Nat) :
    Within bound (axes.take k) (l.take k) := by
  induction k generalizing axes l with
  | zero => simp
  | succ k ih =>
    cases axes with
    | nil => cases l <;> simp_all
    | cons a as =>
      cases l with
      | nil => simp at h
      | cons c cs => exact ⟨h.1, ih h.2⟩

end Within

theorem Real.stored {axes : List Axis} {l : Lane} (h : Real axes l) (hvalid : ∀ a ∈ axes, a.Valid) :
    Stored axes l := Within.mono h fun a ha => (hvalid a ha).2

/-! ## The lane of an operand -/

/-- The lane that is read where the axes `own` of the operand meet the axes `out` of the
consumer. -/
def along : List Axis → List Axis → Lane → Lane
  | own :: owns, out :: outs, c :: cs =>
    (if own.isBroadcast out then 0 else c) :: along owns outs cs
  | _, _, _ => []

/-- The lane of an operand with axes `own` that a consumer with axes `out` reads in its lane `l`:
axes are aligned to the right, and coordinates on replicated axes are zero. -/
def source (own out : List Axis) (l : Lane) : Lane :=
  along own (out.drop (out.length - own.length)) (l.drop (out.length - own.length))

end Lane

/-! ### One axis -/

namespace Axis

variable {own out : Axis} {c : Nat}

theorem isBroadcast_iff :
    own.isBroadcast out = true ↔ own.extent = 1 ∧ (1 < out.extent ∨ own.size < out.size) := by
  simp [isBroadcast]

/-- The coordinate that is read is stored. -/
theorem Fits.coordinate_lt_size (h : own.Fits out) (hown : own.Valid) (hc : (c : Int) < out.size) :
    ((if own.isBroadcast out then 0 else c : Nat) : Int) < own.size := by
  obtain ⟨hpos, hle⟩ := hown
  split
  · simp only [Int.ofNat_zero]
    omega
  · rename_i hnot
    rcases h with rfl | hone
    · exact hc
    · rw [isBroadcast_iff] at hnot
      omega

/-- Real coordinates read real coordinates. -/
theorem Fits.coordinate_lt_extent (h : own.Fits out) (hown : own.Valid)
    (hc : (c : Int) < out.extent) :
    ((if own.isBroadcast out then 0 else c : Nat) : Int) < own.extent := by
  obtain ⟨hpos, hle⟩ := hown
  split
  · exact hpos
  · rename_i hnot
    rcases h with rfl | hone
    · exact hc
    · rw [isBroadcast_iff] at hnot
      omega

/-- Padding coordinates read padding coordinates, unless the axis is replicated. -/
theorem Fits.extent_le (h : own.Fits out) (hout : out.Valid) : own.extent ≤ out.extent := by
  rcases h with rfl | hone
  · exact Int.le_refl _
  · have := hout.1
    omega

end Axis

/-! ### All axes -/

namespace Lane

section Along

variable {owns outs : List Axis} {l : Lane}

theorem stored_along (hfits : List.Forall₂ Axis.Fits owns outs) (howns : ∀ a ∈ owns, a.Valid)
    (hl : Stored outs l) : Stored owns (along owns outs l) := by
  induction hfits generalizing l with
  | nil => cases l <;> simp_all [along]
  | @cons own out owns outs hfit _ ih =>
    cases l with
    | nil => simp at hl
    | cons c cs =>
      exact ⟨hfit.coordinate_lt_size (howns own (by simp)) hl.1,
        ih (fun a ha => howns a (by simp [ha])) hl.2⟩

/-- Real lanes are computed from real lanes. -/
theorem real_along (hfits : List.Forall₂ Axis.Fits owns outs) (howns : ∀ a ∈ owns, a.Valid)
    (hl : Real outs l) : Real owns (along owns outs l) := by
  induction hfits generalizing l with
  | nil => cases l <;> simp_all [along]
  | @cons own out owns outs hfit _ ih =>
    cases l with
    | nil => simp at hl
    | cons c cs =>
      exact ⟨hfit.coordinate_lt_extent (howns own (by simp)) hl.1,
        ih (fun a ha => howns a (by simp [ha])) hl.2⟩

/-- If no replicated axis meets a padded one, padding lanes are computed from padding lanes. -/
theorem not_real_along (hfits : List.Forall₂ Axis.Fits owns outs) (houts : ∀ a ∈ outs, a.Valid)
    (hinto : ∀ p ∈ owns.zip outs, (p.2.isPadded && p.1.isBroadcast p.2) = false)
    (hl : Stored outs l) (hreal : ¬Real outs l) : ¬Real owns (along owns outs l) := by
  induction hfits generalizing l with
  | nil => cases l <;> simp_all
  | @cons own out owns outs hfit _ ih =>
    cases l with
    | nil => simp at hl
    | cons c cs =>
      rintro ⟨hc, hcs⟩
      have hout := houts out (by simp)
      -- the coordinate is a real one, so that a later one is padding
      have hcout : (c : Int) < out.extent := by
        by_contra hge
        have hpadded : out.isPadded = true := by
          have := hl.1
          simp only [Axis.isPadded, decide_eq_true_eq]
          omega
        have hnot : own.isBroadcast out = false := by
          have := hinto (own, out) (by simp)
          simpa [hpadded] using this
        rw [hnot] at hc
        have := hfit.extent_le hout
        simp only [Bool.false_eq_true, if_false] at hc
        omega
      refine ih (fun a ha => houts a (by simp [ha]))
        (fun p hp => hinto p (by simp [hp])) hl.2 ?_ hcs
      exact fun hrest => hreal ⟨hcout, hrest⟩

/-- If padding meets padding only where the operand is replicated, all lanes read real lanes. -/
theorem real_along_of_unread (hfits : List.Forall₂ Axis.Fits owns outs)
    (howns : ∀ a ∈ owns, a.Valid) (hread : ∀ p ∈ owns.zip outs,
      p.1.isBroadcast p.2 = true ∨ p.1.isPadded = false ∨ p.2.isPadded = false)
      (hl : Stored outs l) :
    Real owns (along owns outs l) := by
  induction hfits generalizing l with
  | nil => cases l <;> simp_all [along]
  | @cons own out owns outs hfit _ ih =>
    cases l with
    | nil => simp at hl
    | cons c cs =>
      have hown := howns own (by simp)
      refine ⟨?_, ih (fun a ha => howns a (by simp [ha])) (fun p hp => hread p (by simp [hp])) hl.2⟩
      rcases hread (own, out) (by simp) with hb | hpadded | hpadded
      · rw [if_pos hb]
        exact hown.1
      · simp only [Axis.isPadded, decide_eq_false_iff_not, Int.not_lt] at hpadded
        exact Int.lt_of_lt_of_le (hfit.coordinate_lt_size hown hl.1) hpadded
      · simp only [Axis.isPadded, decide_eq_false_iff_not, Int.not_lt] at hpadded
        exact hfit.coordinate_lt_extent hown (Int.lt_of_lt_of_le hl.1 hpadded)

theorem along_append {us outs' : List Axis} {m : Lane} (houts : us.length = outs.length)
    (hl : us.length = l.length) :
    along (us ++ owns) (outs ++ outs') (l ++ m) = along us outs l ++ along owns outs' m := by
  induction us generalizing outs l with
  | nil =>
    obtain rfl : outs = [] := List.eq_nil_of_length_eq_zero houts.symm
    obtain rfl : l = [] := List.eq_nil_of_length_eq_zero hl.symm
    simp [along]
  | cons u us ih =>
    cases outs with
    | nil => simp at houts
    | cons out outs =>
      cases l with
      | nil => simp at hl
      | cons c cs => simp [along, ih (by simpa using houts) (by simpa using hl)]

end Along
end Lane

/-! ## What a consumer reads -/

namespace Node

variable {c x : Node}

/-- The aligned axes are the axes of both, one below the other. -/
theorem Reads.map_alignedAxes (h : c.Reads x) :
    (c.alignedAxes x).map (fun a => (a.own, a.out)) = (expandToRank x.axes c.rank).zip c.axes := by
  have hlength := length_expandToRank h.rank_le
  refine List.ext_getElem (by simp [alignedAxes, hlength, show c.axes.length = c.rank from rfl])
    fun i hi hi' => ?_
  simp only [alignedAxes, List.length_map, List.length_range] at hi
  have hown : i < (expandToRank x.axes c.rank).length := hlength.symm ▸ hi
  simp [alignedAxes, List.getD_eq_getElem?_getD, List.getElem?_eq_getElem hown,
    List.getElem?_eq_getElem (show i < c.axes.length from hi)]

theorem Reads.forall_zip (h : c.Reads x) {P : Axis × Axis → Prop}
    (hP : ∀ a ∈ c.alignedAxes x, P (a.own, a.out)) :
    ∀ p ∈ (expandToRank x.axes c.rank).zip c.axes, P p := by
  rw [← h.map_alignedAxes]
  simpa using hP

/-- The shape of an operand with single lanes in front of it. -/
theorem valid_expandToRank {axes : List Axis} (hvalid : ∀ a ∈ axes, a.Valid) (rank : Nat) :
    ∀ a ∈ expandToRank axes rank, a.Valid := by
  intro a ha
  rcases List.mem_append.1 ha with ha | ha
  · rw [(List.mem_replicate.1 ha).2]
    decide
  · exact hvalid a ha

/-- Lanes in front of the operand's axes are real ones, so they do not matter. -/
theorem Reads.within_source_iff (h : c.Reads x) {l : Lane} (hl : Lane.Stored c.axes l) :
    (Lane.Real x.axes (Lane.source x.axes c.axes l) ↔
        Lane.Real (expandToRank x.axes c.rank) (Lane.along (expandToRank x.axes c.rank) c.axes l)) ∧
      (Lane.Stored (expandToRank x.axes c.rank) (Lane.along (expandToRank x.axes c.rank) c.axes l) →
        Lane.Stored x.axes (Lane.source x.axes c.axes l)) := by
  have hk : c.rank - x.rank ≤ c.axes.length := Nat.sub_le _ _
  have hlen := hl.length_eq
  have hunits : (List.replicate (c.rank - x.rank) Axis.unit).length =
      (c.axes.take (c.rank - x.rank)).length := by
    simp [hk]
  have hunits' : (List.replicate (c.rank - x.rank) Axis.unit).length =
      (l.take (c.rank - x.rank)).length := by
    simp [hlen, hk]
  have hfits : List.Forall₂ Axis.Fits (List.replicate (c.rank - x.rank) Axis.unit)
      (c.axes.take (c.rank - x.rank)) := by
    have := List.forall₂_take (c.rank - x.rank) h.fits
    rwa [expandToRank, List.take_left' (by simp [rank])] at this
  have hfront : Lane.Real (List.replicate (c.rank - x.rank) Axis.unit)
      (Lane.along (List.replicate (c.rank - x.rank) Axis.unit) (c.axes.take (c.rank - x.rank))
        (l.take (c.rank - x.rank))) := by
    refine Lane.real_along_of_unread hfits (fun a ha => ?_) (fun p hp => ?_) (hl.take _)
    · rw [(List.mem_replicate.1 ha).2]
      decide
    · rw [(List.mem_replicate.1 (List.of_mem_zip hp).1).2]
      exact .inr (.inl (by decide))
  have hsplit : Lane.along (expandToRank x.axes c.rank) c.axes l =
      Lane.along (List.replicate (c.rank - x.rank) Axis.unit) (c.axes.take (c.rank - x.rank))
        (l.take (c.rank - x.rank)) ++ Lane.source x.axes c.axes l := by
    conv => lhs; rw [← List.take_append_drop (c.rank - x.rank) c.axes,
      ← List.take_append_drop (c.rank - x.rank) l]
    exact Lane.along_append hunits hunits'
  rw [hsplit]
  exact ⟨⟨fun hreal => (Lane.within_append hfront.length_eq).2 ⟨hfront, hreal⟩,
    fun hreal => ((Lane.within_append hfront.length_eq).1 hreal).2⟩,
    fun hstored => ((Lane.within_append hfront.length_eq).1 hstored).2⟩

section

variable (h : c.Reads x) (hc : ∀ a ∈ c.axes, a.Valid) (hx : ∀ a ∈ x.axes, a.Valid) {l : Lane}

include h hx

theorem Reads.stored_source (hl : Lane.Stored c.axes l) :
    Lane.Stored x.axes (Lane.source x.axes c.axes l) :=
  (h.within_source_iff hl).2 (Lane.stored_along h.fits (valid_expandToRank hx _) hl)

/-- Where padding meets padding only by replication, a consumer reads real lanes. -/
theorem Reads.real_source_of_unread (hread : ∀ a ∈ c.alignedAxes x,
      a.isBroadcast = true ∨ a.own.isPadded = false ∨ a.out.isPadded = false)
      (hl : Lane.Stored c.axes l) :
    Lane.Real x.axes (Lane.source x.axes c.axes l) := by
  rw [(h.within_source_iff hl).1]
  exact Lane.real_along_of_unread h.fits (valid_expandToRank hx _) (h.forall_zip hread) hl

/-- A consumer whose padding lanes read no padding lanes reads only real lanes. -/
theorem Reads.real_source_of_replicated (hnot : c.paddingReadsPadding x = false)
    (hl : Lane.Stored c.axes l) : Lane.Real x.axes (Lane.source x.axes c.axes l) := by
  refine h.real_source_of_unread hx (fun a ha => ?_) hl
  have := List.any_eq_false.1 hnot a ha
  cases hb : a.isBroadcast <;> simp_all

/-- Who reads a padding lane of an operand reads its own padding. -/
theorem Reads.readsOwnPadding_of_padding (hl : Lane.Stored c.axes l)
    (hreal : ¬Lane.Real x.axes (Lane.source x.axes c.axes l)) : c.readsOwnPadding x = true := by
  by_contra hnot
  refine hreal (h.real_source_of_unread hx (fun a ha => ?_) hl)
  have := List.any_eq_false.1 (Bool.not_eq_true _ ▸ hnot) a ha
  cases hb : a.isBroadcast <;> simp_all

include hc

/-- **Real lanes are computed from real lanes.** -/
theorem Reads.real_source (hl : Lane.Real c.axes l) :
    Lane.Real x.axes (Lane.source x.axes c.axes l) := by
  rw [(h.within_source_iff (Lane.Real.stored hl hc)).1]
  exact Lane.real_along h.fits (valid_expandToRank hx _) hl

omit hx

/-- **Padding lanes are computed from padding lanes** if no replicated lanes reach the padding. -/
theorem Reads.padding_source (hinto : (c.axesIntoPadding x).isEmpty = true)
    (hl : Lane.Padding c.axes l) :
    ¬Lane.Real x.axes (Lane.source x.axes c.axes l) := by
  rw [(h.within_source_iff hl.1).1]
  refine Lane.not_real_along h.fits hc (h.forall_zip fun a ha => ?_) hl.1 hl.2
  have hnone := List.filterMap_eq_nil_iff.1 (List.isEmpty_iff.1 hinto) a ha
  cases hb : a.out.isPadded && a.isBroadcast with
  | false => exact hb
  | true => simp [hb] at hnone

end
end Node
end LanePadding
