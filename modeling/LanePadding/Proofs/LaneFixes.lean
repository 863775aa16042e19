import LanePadding.Proofs.Outcome

/-!
# Copies of lane 0

Where an axis of logical extent one is stored with several lanes and replicated into a consumer's
axis, all its lanes have to be copies of lane 0 before the consumer reads them.  A pointwise
consumer looks at its operands one after the other and demands the copies as it goes, so every
operand that it looks at is fixed, for all readers or with the consumer among the targets.

There is one kind of operand that it does not look at.  A selection whose condition is known in the
padding lanes resolves only the branch that these lanes take.  The other branch is still read in the
real lanes, but no copies are demanded for it: `Engine.laneFix_iff` says that copies are written
exactly for the operands in another place than the discarded branch, and
`Engine.discardedBranch_not_fixed` shows a branch that is left without.
-/

set_option autoImplicit false

namespace LanePadding

/-! ## Operands that a consumer looks at -/

/-- The condition of a selection is known in its padding lanes, and they do not take the branch at
the position `k`. -/
def Run.Discards (r : Run) (w : Workspace) (engine : Engine) (n : NodeRef) (k : Nat) : Prop :=
  ∃ t f v, (w.node n).op.branches? = some (t, f) ∧ r.condition? w engine n = some (.exact v) ∧
    k = if v.value.isZero then t else f

/-- The branches of a selection are its last two operands. -/
theorem Op.branches?_eq_some {op : Op} {t f : Nat} (h : op.branches? = some (t, f)) :
    f = t + 1 ∧ op.kind.arity? = some (t + 2) := by
  unfold branches? at h
  split at h
  · obtain ⟨rfl, rfl⟩ : 1 = t ∧ 2 = f := by simpa using h
    exact ⟨rfl, rfl⟩
  · obtain ⟨rfl, rfl⟩ : 2 = t ∧ 3 = f := by simpa using h
    exact ⟨rfl, rfl⟩
  · simp at h

/-- The operand at the position `k` is one of the two between which the operator selects. -/
def Op.IsBranch (op : Op) (k : Nat) : Prop := ∃ t f, op.branches? = some (t, f) ∧ (k = t ∨ k = f)

theorem Op.isBranch_iff {op : Op} {t f k : Nat} (h : op.branches? = some (t, f)) :
    op.IsBranch k ↔ k = t ∨ k = f := by
  simp [IsBranch, h]

/-- A selection resolves all its branches but a discarded one. -/
theorem Run.mem_resolvedOperands_iff {w : Workspace} {engine : Engine} {n : NodeRef}
    {r : Run} {a : Operand} (harity : (w.node n).op.kind.arity? = some (w.node n).operands.length) :
    a ∈ r.resolvedOperands w engine n ↔
      ∃ k, (w.node n).op.IsBranch k ∧ (w.node n).operands[k]? = some a ∧
      ¬r.Discards w engine n k := by
  cases hbranches : (w.node n).op.branches? with
  | none => simp [resolvedOperands, Op.IsBranch, hbranches]
  | some branches =>
    obtain ⟨t, f⟩ := branches
    obtain ⟨rfl, hlength⟩ := Op.branches?_eq_some hbranches
    rw [hlength, Option.some.injEq] at harity
    simp only [Op.isBranch_iff hbranches]
    by_cases hcond : ∃ v, r.condition? w engine n = some (.exact v)
    · obtain ⟨v, hv⟩ := hcond
      have hdiscards : ∀ k, r.Discards w engine n k ↔ k = if v.value.isZero then t else t + 1 := by
        intro k
        simp [Discards, hbranches, hv]
      simp only [resolvedOperands, hbranches, hv, Option.mem_toList, hdiscards]
      cases v.value.isZero with
      | true =>
        refine ⟨fun htaken => ⟨t + 1, .inr rfl, htaken, by simp⟩, ?_⟩
        rintro ⟨k, rfl | rfl, htaken, hne⟩
        · exact absurd rfl hne
        · exact htaken
      | false =>
        refine ⟨fun htaken => ⟨t, .inl rfl, htaken, by simp⟩, ?_⟩
        rintro ⟨k, rfl | rfl, htaken, hne⟩
        · exact htaken
        · exact absurd rfl hne
    · have hnone : ∀ k, ¬r.Discards w engine n k := by
        rintro k ⟨t, f, v, -, h, -⟩
        exact hcond ⟨v, h⟩
      have hall : r.resolvedOperands w engine n = (w.node n).operands.drop t := by
        simp only [resolvedOperands, hbranches]
        split
        · rename_i v hv
          exact absurd ⟨v, hv⟩ hcond
        · rfl
      simp only [hall, List.mem_iff_getElem?, List.getElem?_drop, hnone,
        not_false_eq_true, and_true]
      constructor
      · rintro ⟨i, hi⟩
        have hlt := (List.getElem?_eq_some_iff.1 hi).1
        exact ⟨t + i, by omega, hi⟩
      · rintro ⟨k, rfl | rfl, hk⟩
        · exact ⟨0, hk⟩
        · exact ⟨1, hk⟩

/-- Only branches are discarded. -/
theorem Run.Discards.isBranch {r : Run} {w : Workspace} {engine : Engine} {n : NodeRef} {k : Nat}
    (h : r.Discards w engine n k) : (w.node n).op.IsBranch k := by
  obtain ⟨t, f, v, hbranches, -, rfl⟩ := h
  refine ⟨t, f, hbranches, ?_⟩
  split
  · exact .inl rfl
  · exact .inr rfl

/-- A pointwise node looks at all its operands but a discarded branch. -/
theorem Run.mem_viewedOperands_iff {w : Workspace} {engine : Engine} {n : NodeRef}
    {r : Run} {a : Operand} (harity : (w.node n).op.kind.arity? = some (w.node n).operands.length) :
    a ∈ r.viewedOperands w engine n ↔
      ∃ k, (w.node n).operands[k]? = some a ∧ ¬r.Discards w engine n k := by
  cases hbranches : (w.node n).op.branches? with
  | none =>
    have hnone : ∀ k, ¬r.Discards w engine n k := by
      rintro k ⟨t, f, v, h, -⟩
      simp [hbranches] at h
    simp only [viewedOperands, hbranches, List.mem_iff_getElem?, hnone, not_false_eq_true, and_true]
  | some branches =>
    obtain ⟨t, f⟩ := branches
    obtain ⟨rfl, hlength⟩ := Op.branches?_eq_some hbranches
    have hsplit : r.viewedOperands w engine n =
        (w.node n).operands.take t ++ r.resolvedOperands w engine n := by
      simp only [viewedOperands, resolvedOperands, hbranches]
    rw [hsplit, List.mem_append, mem_resolvedOperands_iff harity]
    constructor
    · rintro (hfront | ⟨k, -, hk, hkept⟩)
      · -- operands in front of the branches are never discarded
        obtain ⟨k, hk⟩ := List.mem_iff_getElem?.1 hfront
        rw [List.getElem?_take, Option.ite_none_right_eq_some] at hk
        refine ⟨k, hk.2, fun hdiscards => ?_⟩
        have := (Op.isBranch_iff hbranches).1 hdiscards.isBranch
        omega
      · exact ⟨k, hk, hkept⟩
    · rintro ⟨k, hk, hkept⟩
      by_cases hlt : k < t
      · exact .inl (List.mem_iff_getElem?.2 ⟨k, by rw [List.getElem?_take, if_pos hlt, hk]⟩)
      · refine .inr ⟨k, (Op.isBranch_iff hbranches).2 ?_, hk, hkept⟩
        have hlast := (List.getElem?_eq_some_iff.1 hk).1
        rw [hlength, Option.some.injEq] at harity
        omega

/-! ## Actions -/

/-- Among the actions is one that makes the replicated lanes of `x` copies of lane 0, for all
readers or for the consumer `c`. -/
def Analysis.Fixes (a : Analysis) (w : Workspace) (c x : NodeRef) : Prop :=
  ∃ b ∈ a.actions, b.tensor = x ∧ b.fill = .position (w.laneFixExpr c x) ∧
    (b.targets = [] ∨ c ∈ b.targets)

/-- A consumer is served by an action exactly if it demanded the copies: a fill without targets was
demanded by the only reader. -/
theorem Analysis.fixes_iff_demands {w : Workspace} {engine : Engine} {outputs : List NodeRef}
    {a : Analysis} (h : a.run.Outcome w engine a.graph a.nodes outputs) {c x : NodeRef}
    (hx : x.graph = a.graph) (hhas : w.Has x) (hc : c ∈ (a.run.entry x).consumers) :
    a.Fixes w c x ↔ a.run.Demands c x (w.laneFixExpr c x) := by
  constructor
  · rintro ⟨b, hb, htensor, hfill, htargets⟩
    obtain ⟨s, hs, rfl⟩ := (h.emits x hx).mem_actions_iff.1 ⟨hb, htensor⟩
    change s.fill = _ at hfill
    refine ⟨s, hs, hfill, ?_⟩
    rcases htargets with hnil | hmem
    · obtain ⟨hne, hdemanders, hreaders⟩ :=
        h.positions x hx s hs (by simp [Setting.constant?, hfill])
      obtain ⟨c', hc'⟩ := List.exists_mem_of_ne_nil _ hne
      -- two different consumers would be two readers
      have hone : (a.run.entry x).consumers.length ≤ 1 := by
        have := hreaders hnil
        rw [h.readers x hx hhas] at this
        omega
      have hsame : c' = c := by
        obtain ⟨y, hy⟩ := List.length_eq_one_iff.1
          (Nat.le_antisymm hone (List.length_pos_of_mem hc))
        have hcy : c = y := by simpa [hy] using hc
        have hc'y : c' = y := by simpa [hy] using hdemanders c' hc'
        rw [hcy, hc'y]
      exact hsame ▸ hc'
    · rcases h.tidy x s hs with hnil | hall
      · simp [hnil] at hmem
      · exact hall ▸ hmem
  · rintro ⟨s, hs, hfill, hmem⟩
    obtain ⟨hb, htensor⟩ := (h.emits x hx).mem_actions_iff.2 ⟨s, hs, rfl⟩
    refine ⟨_, hb, htensor, hfill, ?_⟩
    rcases h.tidy x s hs with hnil | hall
    · exact .inl hnil
    · exact .inr (hall ▸ hmem)

/-- **Which operands are fixed.**  If lanes of an operand have to be copies of lane 0 for a
pointwise consumer, an action makes them so exactly if the operand stands in another place than a
branch that the consumer discards. -/
theorem Engine.laneFix_iff {w : Workspace} (hw : w.Built) {engine : Engine} {roots : List NodeRef}
    {a : Analysis} (h : engine.analyze w roots = .ok a) {c x : NodeRef} (hc : c ∈ a.nodes)
    (hpoint : (w.node c).op.isPointwise = true) (hx : x ∈ (w.node c).inputs)
    (hfix : w.laneFix c x ≠ []) :
    a.Fixes w c x ↔
      ∃ k, (w.node c).operands[k]? = some (.node x) ∧ ¬a.run.Discards w engine c k := by
  obtain ⟨hlists, houtcome⟩ := outcome_of_analyze hw.wellFormed h
  have hmem := hlists.inputs c hc x hx
  obtain ⟨hgraph, hhas⟩ := hlists.has x hmem
  have hformed := hw.wellFormed c (hlists.has c hc).2
  have hconsumer : c ∈ (a.run.entry x).consumers := by
    rw [houtcome.consumers x hgraph hhas]
    exact List.mem_filter.2 ⟨hc, by simpa using hx⟩
  rw [Analysis.fixes_iff_demands houtcome hgraph hhas hconsumer,
    (houtcome.settled c hc).fixed hpoint x hx, Run.mem_viewedOperands_iff hformed.arity]
  simp [hfix]

/-- A selection between two tensors of a single logical lane, stored in blocks of eight.  Its
condition arrives zero-filled, so that the padding lanes take the second branch. -/
def Workspace.knownSelection : Workspace :=
  (Workspace.empty.addGraph "select").calls
    [.placeholder 0 "cond" .bool [⟨16, 15⟩], .placeholder 0 "t" .float32 [⟨8, 1⟩],
      .placeholder 0 "f" .float32 [⟨8, 1⟩], .select ⟨0, 0⟩ (.node ⟨0, 1⟩) (.node ⟨0, 2⟩)]

theorem Workspace.built_knownSelection : knownSelection.Built :=
  (Built.addGraph "select" .empty).calls (by decide)

theorem Engine.exists_analyze_knownSelection :
    ∃ a, default.analyze .knownSelection [⟨0, 3⟩] = .ok a ∧
      a.nodes = [⟨0, 0⟩, ⟨0, 1⟩, ⟨0, 2⟩, ⟨0, 3⟩] ∧
      a.run.condition? .knownSelection default ⟨0, 3⟩ = some (.exact ⟨.bool, .zero⟩) ∧
      ∀ b ∈ a.actions, b.tensor ≠ ⟨0, 1⟩ :=
  Workspace.built_knownSelection.exists_analyze 0 [⟨0, 0⟩, ⟨0, 1⟩, ⟨0, 2⟩, ⟨0, 3⟩] (by decide)
    (by decide)

/-- Both branches need copies of lane 0, and just the second one gets them. -/
theorem Engine.laneFix_knownSelection :
    ∃ a, default.analyze .knownSelection [⟨0, 3⟩] = .ok a ∧ ⟨0, 3⟩ ∈ a.nodes ∧
      Workspace.knownSelection.laneFix ⟨0, 3⟩ ⟨0, 1⟩ ≠ [] ∧
      Workspace.knownSelection.laneFix ⟨0, 3⟩ ⟨0, 2⟩ ≠ [] ∧
      ¬a.Fixes .knownSelection ⟨0, 3⟩ ⟨0, 1⟩ ∧ a.Fixes .knownSelection ⟨0, 3⟩ ⟨0, 2⟩ := by
  obtain ⟨a, ha, hnodes, hcond, -⟩ := exists_analyze_knownSelection
  have hdiscards : ∀ k, a.run.Discards .knownSelection default ⟨0, 3⟩ k ↔ k = 1 := by
    have hbranches : (Workspace.knownSelection.node ⟨0, 3⟩).op.branches? = some (1, 2) := by
      decide
    have hzero : Number.Double.zero.isZero = true := by decide
    intro k
    simp [Run.Discards, hbranches, hcond, hzero]
  have hoperands : (Workspace.knownSelection.node ⟨0, 3⟩).operands =
      [.node ⟨0, 0⟩, .node ⟨0, 1⟩, .node ⟨0, 2⟩] := by decide
  have hmem : ⟨0, 3⟩ ∈ a.nodes := by simp [hnodes]
  have hfix₁ : Workspace.knownSelection.laneFix ⟨0, 3⟩ ⟨0, 1⟩ ≠ [] := by decide
  have hfix₂ : Workspace.knownSelection.laneFix ⟨0, 3⟩ ⟨0, 2⟩ ≠ [] := by decide
  refine ⟨a, ha, hmem, hfix₁, hfix₂, ?_, ?_⟩
  · rw [laneFix_iff Workspace.built_knownSelection ha hmem (by decide)
      (by decide) hfix₁]
    rintro ⟨k, hk, hnot⟩
    rw [hdiscards] at hnot
    match k with
    | 0 => simp [hoperands] at hk
    | 1 => exact hnot rfl
    | 2 => simp [hoperands] at hk
    | k + 3 => simp [hoperands] at hk
  · rw [laneFix_iff Workspace.built_knownSelection ha hmem (by decide)
      (by decide) hfix₂]
    exact ⟨2, by simp [hoperands], by simp [hdiscards]⟩

/-- The branch that the padding lanes discard is read in the real lanes, but nothing is written into
it. -/
theorem Engine.discardedBranch_not_fixed :
    ∃ a, default.analyze .knownSelection [⟨0, 3⟩] = .ok a ∧ ⟨0, 3⟩ ∈ a.nodes ∧
      (Workspace.knownSelection.node ⟨0, 3⟩).op.isPointwise = true ∧
      ⟨0, 1⟩ ∈ (Workspace.knownSelection.node ⟨0, 3⟩).inputs ∧
      Workspace.knownSelection.laneFix ⟨0, 3⟩ ⟨0, 1⟩ ≠ [] ∧
      ¬a.Fixes .knownSelection ⟨0, 3⟩ ⟨0, 1⟩ := by
  obtain ⟨a, ha, hnodes, -, hnone⟩ := exists_analyze_knownSelection
  refine ⟨a, ha, by simp [hnodes], by decide, by decide, by decide, ?_⟩
  rintro ⟨b, hb, htensor, -⟩
  exact hnone b hb htensor

end LanePadding
