import LanePadding.Proofs.FaultSafety
import LanePadding.Proofs.LaneFixes

/-!
# Who is recorded on what

A consumer leaves traces on the tensors that it reads: it is among the demanders of a setting, or
among the targets of the tensor's own padding value.  It does not on all of them.  Most pointwise
consumers take what they find, and are noted nowhere.  `Engine.records_iff` tells exactly who is
recorded, in terms of the graph and of the conditions that selections read.

The work is in `Run.Settled.noted`, which holds of a node as soon as it is simulated and is kept by
all that comes later.  Here the lists of operands that it speaks of are turned into positions, as
for copies of lane 0.
-/

set_option autoImplicit false

namespace LanePadding

theorem Op.isPointwise_of_branches? {op : Op} {branches : Nat × Nat}
    (h : op.branches? = some branches) :
    op.isPointwise = true := by
  unfold branches? at h
  split at h
  · rfl
  · rfl
  · simp at h

/-- The consumer is recorded on the tensor: it demanded a setting, or relies on the tensor's own
padding value. -/
def Analysis.Records (a : Analysis) (x c : NodeRef) : Prop :=
  (∃ s ∈ a.settings x, c ∈ s.demandedBy) ∨ ∃ p, a.padding? x = some p ∧ c ∈ p.targets

theorem Analysis.records_iff_notes {a : Analysis} {x c : NodeRef} (hx : x.graph = a.graph) :
    a.Records x c ↔ (a.run.entry x).Notes c := by
  rw [Records, settings, padding?, if_pos hx, if_pos hx, Entry.Notes]

/-- **Who is recorded.**  A consumer is recorded on its operand exactly if it reduces lanes that are
padding there, may fault and reads its padding lanes, needs copies of lane 0 of it in a place that
it does not discard, or selects it as a branch that it does not discard. -/
theorem Engine.records_iff {w : Workspace} (hw : w.Built) {engine : Engine} {roots : List NodeRef}
    {a : Analysis} (h : engine.analyze w roots = .ok a) {c x : NodeRef} (hc : c ∈ a.nodes)
    (hx : x ∈ (w.node c).inputs) :
    a.Records x c ↔
      (∃ fn axes keep, (w.node c).op = .reduce fn axes keep ∧
        ∃ i ∈ axes, i ∈ (w.node x).paddedAxes) ∨
      ((∃ rule, (w.node c).FaultsOn x rule) ∧ (w.node c).readsOwnPadding (w.node x) = true) ∨
      ((w.node c).op.isPointwise = true ∧ w.laneFix c x ≠ [] ∧
        ∃ k, (w.node c).operands[k]? = some (.node x) ∧ ¬a.run.Discards w engine c k) ∨
      ∃ k, (w.node c).op.IsBranch k ∧ (w.node c).operands[k]? = some (.node x) ∧
      ¬a.run.Discards w engine c k := by
  obtain ⟨hlists, houtcome⟩ := outcome_of_analyze hw.wellFormed h
  obtain ⟨hgraph, -⟩ := hlists.has x (hlists.inputs c hc x hx)
  have harity := (hw.wellFormed c (hlists.has c hc).2).arity
  rw [Analysis.records_iff_notes hgraph, (houtcome.settled c hc).noted x hx]
  have hfaults : (FaultRule.applying? w x c).isSome = true ↔
      (∃ rule, (w.node c).FaultsOn x rule) ∧ (w.node c).readsOwnPadding (w.node x) = true := by
    simp only [Option.isSome_iff_exists, FaultRule.applying?_eq_some_iff, exists_and_right]
  have hreduces : (∃ fn axes keep, (w.node c).op = .reduce fn axes keep ∧
      ((w.node x).paddedAxes.filter (· ∈ axes)).isEmpty = false) ↔
        ∃ fn axes keep, (w.node c).op = .reduce fn axes keep ∧
      ∃ i ∈ axes, i ∈ (w.node x).paddedAxes := by
    simp only [List.isEmpty_eq_false_iff_exists_mem, List.mem_filter, decide_eq_true_iff, and_comm]
  have hpoint : (∃ k, (w.node c).op.IsBranch k ∧ (w.node c).operands[k]? = some (.node x) ∧
      ¬a.run.Discards w engine c k) → (w.node c).op.isPointwise = true := by
    rintro ⟨k, ⟨t, f, hbranches, -⟩, -⟩
    exact Op.isPointwise_of_branches? hbranches
  rw [Run.Uses, hfaults, hreduces, Run.mem_viewedOperands_iff harity,
    Run.mem_resolvedOperands_iff harity, and_or_left, and_iff_right_of_imp hpoint, or_left_comm,
    and_comm (b := w.laneFix c x ≠ [])]

/-- A selection between a single lane and a vector, of which the sum and the opposite are taken.
The vector is also read by a logarithm, and scaled by the single lane. -/
def Workspace.guardedVector : Workspace :=
  (Workspace.empty.addGraph "guarded").calls
    [.placeholder 0 "cond" .bool [⟨16, 15⟩], .placeholder 0 "t" .float32 [⟨8, 1⟩],
      .placeholder 0 "f" .float32 [⟨16, 15⟩], .select ⟨0, 0⟩ (.node ⟨0, 1⟩) (.node ⟨0, 2⟩),
      .unary (.unary .log) ⟨0, 2⟩, .reduce (.reduce .sum) ⟨0, 3⟩ false [0],
      .unary (.unary .neg) ⟨0, 3⟩, .binary (.binary .mul) (.node ⟨0, 2⟩) (.node ⟨0, 1⟩)]

theorem Workspace.built_guardedVector : guardedVector.Built :=
  (Built.addGraph "guarded" .empty).calls (by decide)

theorem Engine.exists_analyze_guardedVector :
    ∃ a, default.analyze .guardedVector [⟨0, 4⟩, ⟨0, 5⟩, ⟨0, 6⟩, ⟨0, 7⟩] = .ok a ∧
      a.nodes = [⟨0, 0⟩, ⟨0, 1⟩, ⟨0, 2⟩, ⟨0, 3⟩, ⟨0, 4⟩, ⟨0, 5⟩, ⟨0, 6⟩, ⟨0, 7⟩] ∧
      a.run.condition? .guardedVector default ⟨0, 3⟩ = some (.exact ⟨.bool, .zero⟩) :=
  Workspace.built_guardedVector.exists_analyze 0
    [⟨0, 0⟩, ⟨0, 1⟩, ⟨0, 2⟩, ⟨0, 3⟩, ⟨0, 4⟩, ⟨0, 5⟩, ⟨0, 6⟩, ⟨0, 7⟩] (by decide +kernel)
    (by decide +kernel)

/-- The sum, the logarithm, the product and the selection are recorded, each for a reason of its
own.  The selection is not recorded on the branch that it discards, nor is the opposite on the
selection. -/
theorem Engine.records_guardedVector :
    ∃ a, default.analyze .guardedVector [⟨0, 4⟩, ⟨0, 5⟩, ⟨0, 6⟩, ⟨0, 7⟩] = .ok a ∧
      a.Records ⟨0, 3⟩ ⟨0, 5⟩ ∧ a.Records ⟨0, 2⟩ ⟨0, 4⟩ ∧ a.Records ⟨0, 1⟩ ⟨0, 7⟩ ∧
      a.Records ⟨0, 2⟩ ⟨0, 3⟩ ∧
      ¬a.Records ⟨0, 1⟩ ⟨0, 3⟩ ∧ ¬a.Records ⟨0, 3⟩ ⟨0, 6⟩ := by
  obtain ⟨a, ha, hnodes, hcond⟩ := exists_analyze_guardedVector
  have hbuilt := Workspace.built_guardedVector
  have hselect : (Workspace.guardedVector.node ⟨0, 3⟩).op = .select := by decide +kernel
  have hneg : (Workspace.guardedVector.node ⟨0, 6⟩).op = .unary .neg := by decide +kernel
  have hmul : (Workspace.guardedVector.node ⟨0, 7⟩).op = .binary .mul := by decide +kernel
  have hoperands : (Workspace.guardedVector.node ⟨0, 3⟩).operands =
      [.node ⟨0, 0⟩, .node ⟨0, 1⟩, .node ⟨0, 2⟩] := by decide +kernel
  have hdiscards : ∀ k, a.run.Discards .guardedVector default ⟨0, 3⟩ k ↔ k = 1 := by
    have hzero : Number.Double.zero.isZero = true := by decide
    intro k
    simp [Run.Discards, hselect, Op.branches?, hcond, hzero]
  refine ⟨a, ha, ?_, ?_, ?_, ?_, ?_, ?_⟩
  · refine (records_iff hbuilt ha (by simp [hnodes]) (by decide +kernel)).2
      (.inl ⟨.sum, [0], false, ?_, 0, ?_⟩)
    · decide +kernel
    · decide +kernel
  · refine (records_iff hbuilt ha (by simp [hnodes]) (by decide +kernel)).2
      (.inr (.inl ⟨⟨.positive, .log ?_⟩, ?_⟩))
    · decide +kernel
    · decide +kernel
  · refine (records_iff hbuilt ha (by simp [hnodes]) (by decide +kernel)).2
      (.inr (.inr (.inl ⟨by rw [hmul]; rfl, by decide +kernel, 1, by decide +kernel, ?_⟩)))
    rintro ⟨t, f, v, hbranches, -⟩
    simp [hmul, Op.branches?] at hbranches
  · exact (records_iff hbuilt ha (by simp [hnodes]) (by decide +kernel)).2
      (.inr
        (.inr (.inr ⟨2, ⟨1, 2, by rw [hselect]; rfl,
          .inr rfl⟩, by simp [hoperands], by simp [hdiscards]⟩)))
  · rw [records_iff hbuilt ha (by simp [hnodes]) (by decide +kernel)]
    -- it stands in the discarded place only
    have hplace : ∀ k, (Workspace.guardedVector.node ⟨0, 3⟩).operands[k]? =
        some (.node ⟨0, 1⟩) → k = 1 := by
      intro k hk
      rw [hoperands] at hk
      rcases k with _ | _ | _ | k <;> simp at hk ⊢
    rintro (⟨fn, axes, keep, hop, -⟩ | ⟨⟨rule, hfaults⟩, -⟩ | ⟨-, -, k, hk,
      hnot⟩ | ⟨k, -, hk, hnot⟩)
    · simp [hselect] at hop
    · rcases hfaults with hop | hop | hop | hop | ⟨hop, -⟩ <;> simp [hselect] at hop
    · exact hnot ((hdiscards k).2 (hplace k hk))
    · exact hnot ((hdiscards k).2 (hplace k hk))
  · rw [records_iff hbuilt ha (by simp [hnodes]) (by decide +kernel)]
    rintro (⟨fn, axes, keep, hop, -⟩ | ⟨⟨rule, hfaults⟩, -⟩ | ⟨-, hfix, -⟩ | ⟨k,
      ⟨t, f, hbranches, -⟩, -⟩)
    · simp [hneg] at hop
    · rcases hfaults with hop | hop | hop | hop | ⟨hop, -⟩ <;> simp [hneg] at hop
    · exact hfix (by decide +kernel)
    · simp [hneg, Op.branches?] at hbranches

end LanePadding
