import Mathlib.Data.Int.Init
import LanePadding.Proofs.AddedNodes
import LanePadding.Proofs.FailedCalls
import LanePadding.Proofs.ReducedLanes

/-!
# The axes of a reduction

A reduction is asked for with any list of numbers: in any order, with repetitions, and with negative
ones that count from behind the last axis.  The node stores the positions instead, in increasing
order.  A strictly increasing list is known by its elements, so nothing of how the axes were listed
is left in the node (`Build.reduce_normalises`).

## What is here

* `Build.NamesAxis` — the numbers that stand for an axis, and `Build.axisPosition?_eq`, for which
  one.
* `Build.exists_reducedAxes`, `Build.exists_error_reducedAxes` — the stored positions of a list, and
  when there are none.  Positions are collected one by one and sorted; `Build.reducedAxes_spec` says
  what comes out of that.
* `afterReduce_true`, `afterReduce_false` — the axes that are left.
* `Build.on_reduce` — **a reduction depends on the list only by its positions.**
-/

set_option autoImplicit false

namespace LanePadding

/-! ## What is left of the axes -/

section AfterReduce

variable {α : Type} (reduced : List Nat) (z : α)

theorem afterReduce_true (i : Nat) (as : List α) :
    afterReduce reduced true z i as =
      (as.zipIdx i).map fun p => if p.2 ∈ reduced then z else p.1 := by
  induction as generalizing i with
  | nil => rfl
  | cons a as ih => by_cases hi : i ∈ reduced <;> simp [afterReduce, hi, ih]

theorem afterReduce_false (i : Nat) (as : List α) :
    afterReduce reduced false z i as = ((as.zipIdx i).filter (·.2 ∉ reduced)).map Prod.fst := by
  induction as generalizing i with
  | nil => rfl
  | cons a as ih => by_cases hi : i ∈ reduced <;> simp [afterReduce, hi, ih]

theorem mem_of_mem_afterReduce {keep : Bool} {i : Nat} {as : List α} {a : α}
    (h : a ∈ afterReduce reduced keep z i as) : a = z ∨ a ∈ as := by
  cases keep with
  | true =>
    rw [afterReduce_true] at h
    obtain ⟨p, hp, rfl⟩ := List.mem_map.1 h
    split
    · exact .inl rfl
    · exact .inr (List.fst_mem_of_mem_zipIdx hp)
  | false =>
    rw [afterReduce_false] at h
    obtain ⟨p, hp, rfl⟩ := List.mem_map.1 h
    exact .inr (List.fst_mem_of_mem_zipIdx (List.mem_filter.1 hp).1)

end AfterReduce

namespace Build

/-! ## Positions of listed axes -/

/-- The number stands for an axis: it counts from the first one or, if negative, from behind the
last one. -/
def NamesAxis (rank : Nat) (a : Int) : Prop := -(rank : Int) ≤ a ∧ a < rank

/-- A list stands for the axes that it names, and for all of them if it is empty. -/
def Selects (rank : Nat) (axes : List Int) (i : Nat) : Prop :=
  axes = [] ∧ i < rank ∨ ∃ a ∈ axes, (i : Int) = a % rank

instance (rank : Nat) (a : Int) :
    Decidable (NamesAxis rank a) := inferInstanceAs (Decidable (_ ∧ _))

variable {rank : Nat}

theorem NamesAxis.emod_bounds {a : Int} (h : NamesAxis rank a) :
    0 ≤ a % rank ∧ a % rank < rank := by
  have hpos : (0 : Int) < rank := by
    rw [NamesAxis] at h
    omega
  exact ⟨Int.emod_nonneg a hpos.ne', Int.emod_lt_of_pos a hpos⟩

/-- The position of an axis is the number modulo the rank. -/
theorem axisPosition?_eq (rank : Nat) (a : Int) :
    axisPosition? rank a = if NamesAxis rank a then some (a % rank).toNat else none := by
  rw [axisPosition?]
  refine ite_congr (propext ?_) (fun hnames => ?_) fun _ => rfl
  · rw [NamesAxis]
    split <;> omega
  · obtain ⟨hlow, hhigh⟩ := hnames
    split
    · rw [← Int.add_emod_right, Int.emod_eq_of_lt (by omega) (by omega)]
    · rw [Int.emod_eq_of_lt (by omega) hhigh]

theorem axisPosition?_eq_none {a : Int} : axisPosition? rank a = none ↔ ¬NamesAxis rank a := by
  simp [axisPosition?_eq]

theorem NamesAxis.axisPosition?_eq_some {a : Int} (h : NamesAxis rank a) {i : Nat} :
    axisPosition? rank a = some i ↔ (i : Int) = a % rank := by
  rw [axisPosition?_eq, if_pos h, Option.some_inj]
  have hlow := h.emod_bounds.1
  omega

/-- The first number that stands for no axis is reported. -/
theorem listedAxes_eq_error {known : List Nat} {axes : List Int} {a : Int} :
    listedAxes rank known axes = .error a ↔
      axes.find? (fun a => (axisPosition? rank a).isNone) = some a := by
  induction axes generalizing known with
  | nil => simp [listedAxes]
  | cons b axes ih =>
    rw [listedAxes, List.find?_cons]
    cases axisPosition? rank b with
    | none => simp
    | some i => simpa using ih

/-- A list is refused if one of its numbers stands for no axis. -/
theorem exists_error_reducedAxes {axes : List Int} :
    (∃ a, reducedAxes rank axes = .error a) ↔ ∃ a ∈ axes, ¬NamesAxis rank a := by
  have hmap : ∀ a, reducedAxes rank axes = .error a ↔
      listedAxes rank (if axes.isEmpty then List.range rank else []) axes = .error a := by
    intro a
    rw [reducedAxes]
    cases listedAxes rank (if axes.isEmpty then List.range rank else []) axes <;> simp [Except.map]
  simp only [hmap, listedAxes_eq_error, ← Option.isSome_iff_exists, List.find?_isSome,
    Option.isNone_iff_eq_none, axisPosition?_eq_none]

/-- **The positions of a list** are in increasing order, and it stands for them. -/
theorem exists_reducedAxes {axes : List Int} (h : ∀ a ∈ axes, NamesAxis rank a) :
    ∃ reduced, reducedAxes rank axes = .ok reduced ∧ reduced.Pairwise (· < ·) ∧
      ∀ i, i ∈ reduced ↔ Selects rank axes i := by
  cases hreduced : reducedAxes rank axes with
  | error a =>
    obtain ⟨b, hb, hnames⟩ := exists_error_reducedAxes.1 ⟨a, hreduced⟩
    exact absurd (h b hb) hnames
  | ok reduced =>
    obtain ⟨hsorted, -, hmem⟩ := reducedAxes_spec hreduced
    refine ⟨reduced, rfl, hsorted, fun i => (hmem i).trans (or_congr_right ?_)⟩
    exact exists_congr fun a => and_congr_right fun ha => (h a ha).axisPosition?_eq_some

/-! ## The node of a reduction -/

variable {w : Workspace} {x : NodeRef} {fn : ReduceFn} {keep : Bool} {axes axes' : List Int}

/-- **A reduction depends on the list only by its positions.** -/
theorem on_reduce (hw : w.WellFormed) (hx : w.Has x) {reduced : List Nat}
    (h : reducedAxes (w.node x).rank axes = .ok reduced) :
    (reduce (.reduce fn) x keep axes).on w = (.ok (w.nextRef x.graph), w.push x.graph
      ⟨"", .reduce fn reduced keep, [.node x], (w.node x).dtype,
        axesAfterReduce (w.node x).axes reduced keep⟩) := by
  refine on_eq_of_ends ?_
  simp only [reduce, ends_bind, ends_get, h]
  refine ends_add_push (by simp [Operand.node?]) (by simp [Operand.node?]) fun a ha => ?_
  rw [axesAfterReduce_eq] at ha
  obtain rfl | ha := mem_of_mem_afterReduce reduced _ ha
  · decide
  · exact (hw x hx).valid a ha

/-- A reduction fails exactly if a listed number stands for no axis. -/
theorem exists_error_reduce (hw : w.WellFormed) (hx : w.Has x) :
    (∃ e w', (reduce (.reduce fn) x keep axes).on w = (.error e, w')) ↔
      ∃ a ∈ axes, ¬NamesAxis (w.node x).rank a := by
  constructor
  · rintro ⟨e, w', hon⟩
    by_contra! hnames
    obtain ⟨reduced, hreduced, -⟩ := exists_reducedAxes hnames
    rw [on_reduce hw hx hreduced] at hon
    simp at hon
  · intro hnames
    obtain ⟨a, ha⟩ := exists_error_reducedAxes.2 hnames
    have hends : (reduce (.reduce fn) x keep axes).Ends w (fun _ _ => False) (· = w) := by
      simp only [reduce, ends_bind, ends_get, ha, ends_throw]
    obtain ⟨e, w', hon, -⟩ := hends.exists_error fun _ _ => id
    exact ⟨e, w', hon⟩

/-- Lists that stand for the same axes have the same positions. -/
theorem reducedAxes_eq_of_selects (h : ∀ a ∈ axes, NamesAxis rank a)
    (h' : ∀ a ∈ axes', NamesAxis rank a) (hselects : ∀ i, Selects rank axes i ↔
      Selects rank axes' i) : reducedAxes rank axes = reducedAxes rank axes' := by
  obtain ⟨reduced, hreduced, hsorted, hmem⟩ := exists_reducedAxes h
  obtain ⟨reduced', hreduced', hsorted', hmem'⟩ := exists_reducedAxes h'
  have hsame : reduced = reduced' :=
    hsorted.eq_of_mem_iff hsorted' fun i => (hmem i).trans ((hselects i).trans (hmem' i).symm)
  rw [hreduced, hreduced', hsame]

/-- The empty list stands for what the list of all axes does. -/
theorem selects_range (i : Nat) :
    Selects rank ((List.range rank).map Int.ofNat) i ↔ Selects rank [] i := by
  constructor
  · rintro (⟨-, hi⟩ | ⟨a, ha, hi⟩)
    · exact .inl ⟨rfl, hi⟩
    · obtain ⟨j, hj, rfl⟩ := List.mem_map.1 ha
      rw [Int.ofNat_eq_natCast, ← Int.natCast_mod, Nat.mod_eq_of_lt (List.mem_range.1 hj),
        Int.natCast_inj] at hi
      exact .inl ⟨rfl, hi ▸ List.mem_range.1 hj⟩
  · rintro (⟨-, hi⟩ | ⟨a, ha, -⟩)
    · refine .inr ⟨i, List.mem_map.2 ⟨i, List.mem_range.2 hi, rfl⟩, ?_⟩
      rw [← Int.natCast_mod, Nat.mod_eq_of_lt hi]
    · simp at ha

theorem namesAxis_of_mem_range {a : Int} (h : a ∈ (List.range rank).map Int.ofNat) :
    NamesAxis rank a := by
  obtain ⟨i, hi, rfl⟩ := List.mem_map.1 h
  have hlt := List.mem_range.1 hi
  rw [NamesAxis, Int.ofNat_eq_natCast]
  omega

theorem on_reduce_eq_of_selects (hw : w.WellFormed) (hx : w.Has x)
    (h : ∀ a ∈ axes, NamesAxis (w.node x).rank a) (h' : ∀ a ∈ axes', NamesAxis (w.node x).rank a)
    (hselects : ∀ i, Selects (w.node x).rank axes i ↔ Selects (w.node x).rank axes' i) :
    (reduce (.reduce fn) x keep axes).on w = (reduce (.reduce fn) x keep axes').on w := by
  have hsame := reducedAxes_eq_of_selects h h' hselects
  obtain ⟨reduced, hreduced, -⟩ := exists_reducedAxes h
  rw [on_reduce hw hx hreduced, on_reduce hw hx (hsame.symm.trans hreduced)]

/-- **A reduction normalises its axes.**  A list with at least one number is refused exactly if one
of its numbers stands for no axis.  Otherwise the node has the numbers modulo the rank as its axes,
each of them once and in increasing order.  Its shape is that of the operand without the reduced
axes, or with a single lane for each of them.  The empty list is as good as that of all axes, and
lists that stand for the same axes make the same node. -/
theorem reduce_normalises (hw : w.Built) (hx : w.Has x) (fn : ReduceFn) (keep : Bool) :
    (∀ axes, axes ≠ [] → ((∃ e w', (reduce (.reduce fn) x keep axes).on w = (.error e, w')) ↔
      ∃ a ∈ axes, a < -((w.node x).rank : Int) ∨ (w.node x).rank ≤ a)) ∧
    (∀ axes, axes ≠ [] → (∀ a ∈ axes, NamesAxis (w.node x).rank a) →
      ∃ reduced r w', (reduce (.reduce fn) x keep axes).on w = (.ok r, w') ∧
        reduced.Pairwise (· < ·) ∧
        (∀ i : Nat, i ∈ reduced ↔ ∃ a ∈ axes, (i : Int) = a % (w.node x).rank) ∧
        w'.node r = ⟨"", .reduce fn reduced keep, [.node x], (w.node x).dtype,
          if keep then (w.node x).axes.zipIdx.map fun p => if p.2 ∈ reduced then .unit else p.1
          else ((w.node x).axes.zipIdx.filter (·.2 ∉ reduced)).map Prod.fst⟩) ∧
    (reduce (.reduce fn) x keep []).on w =
      (reduce (.reduce fn) x keep ((List.range (w.node x).rank).map Int.ofNat)).on w ∧
    ∀ axes axes', (∀ a ∈ axes ++ axes', NamesAxis (w.node x).rank a) →
      (∀ i, Selects (w.node x).rank axes i ↔ Selects (w.node x).rank axes' i) →
      (reduce (.reduce fn) x keep axes).on w = (reduce (.reduce fn) x keep axes').on w := by
  have hwf := hw.wellFormed
  refine ⟨fun axes _ => ?_, fun axes hne h => ?_, ?_, fun axes axes' h hselects => ?_⟩
  · rw [exists_error_reduce hwf hx]
    refine exists_congr fun a => and_congr_right fun _ => ?_
    rw [NamesAxis]
    omega
  · obtain ⟨reduced, hreduced, hsorted, hmem⟩ := exists_reducedAxes h
    refine ⟨reduced, _, _, on_reduce hwf hx hreduced, hsorted, fun i => ?_, ?_⟩
    · rw [hmem, Selects]
      exact or_iff_right fun hnil => hne hnil.1
    · rw [Workspace.node_push_self (Workspace.lt_size_of_has hx), axesAfterReduce_eq]
      cases keep with
      | true => rw [afterReduce_true, if_pos rfl]
      | false => rw [afterReduce_false, if_neg Bool.false_ne_true]
  · exact on_reduce_eq_of_selects hwf hx (by simp) (fun _ => namesAxis_of_mem_range) fun i =>
      (selects_range i).symm
  · exact on_reduce_eq_of_selects hwf hx (fun a ha => h a (List.mem_append_left _ ha))
      (fun a ha => h a (List.mem_append_right _ ha)) hselects

end Build

/-- A tensor with three axes. -/
def Workspace.threeAxes : Workspace :=
  (Workspace.empty.addGraph "axes").calls [.placeholder 0 "x" .float32 [⟨2, 2⟩, ⟨4, 3⟩, ⟨16, 15⟩]]

/-- The first and the last axis, listed from behind and twice.  One more step back there is no
axis. -/
theorem Build.reduce_normalises_threeAxes :
    (∃ e w', (reduce (.reduce .sum) ⟨0, 0⟩ true [1, -4]).on .threeAxes = (.error e, w')) ∧
    (∃ r w', (reduce (.reduce .sum) ⟨0, 0⟩ true [2, -3, -1]).on .threeAxes = (.ok r, w') ∧
      w'.node r = ⟨"", .reduce .sum [0, 2] true, [.node ⟨0, 0⟩], .float32,
        [.unit, ⟨4, 3⟩, .unit]⟩) ∧
    (reduce (.reduce .sum) ⟨0, 0⟩ true [2, -3, -1]).on .threeAxes =
      (reduce (.reduce .sum) ⟨0, 0⟩ true [0, -1]).on .threeAxes := by
  have hbuilt : Workspace.threeAxes.Built :=
    (Workspace.Built.empty.addGraph "axes").calls (by decide)
  have hnode : Workspace.threeAxes.node ⟨0, 0⟩ =
      ⟨"x", .placeholder none, [], .float32, [⟨2, 2⟩, ⟨4, 3⟩, ⟨16, 15⟩]⟩ := by decide
  have hrank : (Workspace.threeAxes.node ⟨0, 0⟩).rank = 3 := by rw [hnode]; rfl
  obtain ⟨herror, hok, -, hsame⟩ :=
    reduce_normalises hbuilt (show Workspace.threeAxes.Has ⟨0, 0⟩ by decide) .sum true
  rw [hrank] at herror hok hsame
  refine ⟨(herror _ (by simp)).2 ⟨-4, by simp, by decide⟩, ?_, hsame _ _ (by decide) fun i => ?_⟩
  · obtain ⟨reduced, r, w', hon, hsorted, hmem, hreduced⟩ := hok [2, -3, -1] (by simp) (by decide)
    obtain rfl : reduced = [0, 2] := by
      refine hsorted.eq_of_mem_iff (by decide) fun i => (hmem i).trans ?_
      simp only [List.mem_cons, List.not_mem_nil, or_false, exists_eq_or_imp, exists_eq_left]
      omega
    exact ⟨r, w', hon, by rw [hreduced, hnode]; decide⟩
  · simp only [Selects, reduceCtorEq, false_and, false_or, List.mem_cons, List.not_mem_nil,
      or_false, exists_eq_or_imp, exists_eq_left]
    omega

end LanePadding
