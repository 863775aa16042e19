import LanePadding.Proofs.AddedNodes
import LanePadding.Proofs.Representation

/-!
# Comparing unknown lanes

Nothing is known about unconstrained lanes but whose lanes they are.  A tensor compared with itself
holds the same in all its lanes, so the comparison is decided by its mode; two tensors may always
differ, even if one of them is a copy of the other, since the analysis does not follow values
through operators.

Lanes are told apart by the origin of their padding value, which is passed on by views and set anew
for every simulated node.  A consumer that reads unconstrained lanes finds the operand itself as
their origin, or none if some of the lanes hold copies of real data (`Run.Settled.origin_of_sees`).
The latter never happens to a tensor that is compared with itself: the comparison has the shape of
the tensor, so nothing is replicated (`Workspace.Built.axes_compare_self`).

## What is here

* `Run.padding_of_simulateFrom` — later steps do not change what was inferred.
* `Engine.Stage.exists_padding` — what is inferred about a node is what its equation says when its
  turn comes.
* `Engine.padding_of_unconstrained_views` — **identity decides comparisons of unknown lanes**.
-/

set_option autoImplicit false

namespace LanePadding

/-! ## Origins of what is read -/

/-- Unknown lanes are compared by identity. -/
theorem Platform.comparePadding_unconstrained {platform : Platform} {mode : CompareMode}
    {p q v : PaddingValue} (hp : p.content = .unconstrained) (hq : q.content = .unconstrained)
    (h : platform.comparePadding mode p q = .ok v) :
    v = if p.sameValue q then .exact (.ofBool mode.isReflexive) else .unconstrained := by
  rw [comparePadding] at h
  split at h
  · exact absurd h (by simp)
  · simp only [hp, hq] at h
    exact (Except.ok.inj h).symm

namespace Run

variable {w : Workspace} {engine : Engine} {n x : NodeRef} {r : Run}

/-- Unconstrained lanes that are read are those of the operand, or some of them are copies of real
data. -/
theorem Settled.origin_of_sees (h : Settled w engine r x) {p : PaddingValue}
    (hp : r.sees w n (.node x) = some p) (hcontent : p.content = .unconstrained) :
    p.origin = if ((w.node n).axesIntoPadding (w.node x)).isEmpty then some x else none := by
  rw [sees] at hp
  split at hp
  · rename_i hinto
    rw [if_pos hinto]
    obtain ⟨own, hown, rfl⟩ := Option.map_eq_some_iff.1 hp
    rw [read, Entry.read_eq] at hown
    split at hown
    · obtain rfl := Option.some.inj hown
      exact absurd hcontent (by simp [PaddingValue.clone])
    · obtain ⟨q, hq, horigin, -⟩ := h.holds
      obtain rfl := Option.some.inj (hown.symm.trans hq)
      exact horigin
  · rename_i hinto
    rw [if_neg hinto]
    split at hp
    · obtain ⟨own, -, rfl⟩ := Option.map_eq_some_iff.1 hp
      rw [PaddingValue.meetData]
      split <;> rfl
    · obtain rfl := Option.some.inj hp
      rfl

end Run

/-- A tensor that is compared with itself has the shape of the comparison. -/
theorem Workspace.Built.axes_compare_self {w : Workspace} (hw : w.Built) {n x : NodeRef}
    (hn : w.Has n) {mode : CompareMode} (hop : (w.node n).op = .compare mode)
    (hoperands : (w.node n).operands = [.node x, .node x]) :
    (w.node x).axes = (w.node n).axes := by
  have hshape := hw.combining n hn (by rw [hop]; rfl)
  have hsame : w.broadcastShape (w.node n).op.kind [.node x, .node x] = .ok (w.node x).axes :=
    broadcastShape_of_axes_eq (by simp [Operand.node?]) (by simp [Operand.node?])
  rw [hoperands] at hshape
  exact Except.ok.inj (hsame.symm.trans hshape)

/-! ## What was inferred stays -/

namespace Run

variable {w : Workspace} {engine : Engine} {g : Nat} {roots nodes outputs done rest : List NodeRef}
  {n x : NodeRef} {r r₁ r' : Run} {content : Content}

/-- One step does not change what was inferred about another node. -/
theorem Stepped.padding_eq (h : Stepped w engine g n r r₁ content r') (hn : Next w g nodes done n)
    (hr : Coherent w g nodes outputs done r) (hx : x ∈ done) :
    (r'.entry x).padding.map PaddingValue.clone = (r.entry x).padding.map PaddingValue.clone := by
  have hne : x ≠ n := fun heq => hn.fresh (heq ▸ hx)
  rw [h.others hn hr (hn.doneHas x hx).1 hne, h.grown.padding]

/-- Neither do all later steps together. -/
theorem padding_of_simulateFrom (hw : w.WellFormed) (hlists : w.Lists g roots nodes)
    {l : List NodeRef} {count i : Nat} (hsplit : nodes = done ++ (l ++ rest))
    (hr : Coherent w g nodes outputs done r) (hx : x ∈ done)
    (h : engine.simulateFrom w count i l r = .ok r') :
    (r'.entry x).padding.map PaddingValue.clone = (r.entry x).padding.map PaddingValue.clone := by
  refine (simulateFrom_induction hw hlists (I := fun done s => x ∈ done ∧
    (s.entry x).padding.map PaddingValue.clone =
      (r.entry x).padding.map PaddingValue.clone) ?_ hsplit hr ⟨hx, rfl⟩ h).2.2
  intro done n s s₁ content s' _ hn hs hstepped hI
  exact ⟨List.mem_append_left _ hI.1, (hstepped.padding_eq hn hs hI.1).trans hI.2⟩

end Run

namespace Engine

variable {w : Workspace} {engine : Engine} {roots : List NodeRef} {a : Analysis}
  {n x y : NodeRef} {i : Nat} {before after : Run}

/-- **What is inferred about a pointwise node** is what its equation says when its turn comes, and
the node becomes the origin of it. -/
theorem Stage.exists_padding (hw : w.WellFormed) (h : engine.analyze w roots = .ok a)
    (hn : a.nodes[i]? = some n) (hstage : engine.Stage w roots a.nodes i before)
    (hpoint : (w.node n).op.isPointwise = true) :
    before.Knows w a.graph n ∧ (∀ x ∈ (w.node n).inputs, Run.Settled w engine before x) ∧
      ∃ v, a.padding? n = some v ∧ v.origin = some n ∧
      before.infer w engine n = some v.content := by
  obtain ⟨simulated, hsimulates⟩ := exists_simulates hw h
  obtain ⟨first', tail', -, hroots', hgraph', -⟩ := analyze_eq_ok.1 h
  generalize hnodes : a.nodes = nodes at hstage
  cases hstage with
  | ended _ => rw [hnodes, List.getElem?_eq_none (Nat.le_succ _)] at hn; cases hn
  | @simulated first tail done todo _ hroots hreach hbefore =>
    obtain ⟨rfl, rfl⟩ := List.cons.inj (hroots'.symm.trans hroots)
    subst hroots
    obtain ⟨rest, rfl⟩ : ∃ rest, todo = n :: rest := by
      rw [hnodes, List.getElem?_append_right (Nat.le_refl _), Nat.sub_self] at hn
      cases todo with
      | nil => cases hn
      | cons m rest => exact ⟨rest, by rw [Option.some.inj hn]⟩
    have hlists := hsimulates.lists
    have hnext := Run.next_of_lists hw hlists hnodes
    obtain ⟨hcoherent, hsettled, -⟩ := coherent_of_simulateFrom hw hreach hbefore
    rw [← hnodes, ← hgraph'] at hbefore hcoherent
    -- the simulation goes on from the state of the stage
    have hsimulated : engine.simulateFrom w a.nodes.length 0 (done ++ n :: rest)
        (.initial w a.graph a.nodes (distinct (first' :: tail'))) = .ok simulated := by
      rw [← hnodes]
      exact hsimulates.simulates
    obtain ⟨_, hbefore', hlater⟩ := simulateFrom_append.1 hsimulated
    obtain rfl := Except.ok.inj (hbefore.symm.trans hbefore')
    rw [simulateFrom] at hlater
    split at hlater
    · cases hlater
    · rename_i u secured hyields
      obtain ⟨noted, content, hstepped⟩ := Run.exists_stepped hnext hcoherent (u := u) hyields
      have hinfer : before.infer w engine n = some content :=
        (hstepped.viewed hpoint).sameFor.infer_eq.symm.trans hstepped.infers
      obtain ⟨-, -, hown, -⟩ := hstepped.own hnext hcoherent
      have hall : a.nodes = (done ++ [n]) ++ (rest ++ []) := by simp [hnodes]
      have hkept := Run.padding_of_simulateFrom hw hlists hall (hcoherent.step hnext hstepped)
        (List.mem_append_right done (List.mem_singleton_self n)) hlater
      have hfinal := (hsimulates.padding_eq hnext.graph).trans (hkept.trans hown)
      obtain ⟨v, hv, hclone⟩ := Option.map_eq_some_iff.1 hfinal
      refine ⟨hnext.knows hcoherent, fun x hx => hsettled x (hnext.inputs x hx), v, ?_, ?_, ?_⟩
      · rw [Analysis.padding?, if_pos hnext.graph, hv]
      · exact congrArg PaddingValue.origin hclone
      · exact hinfer.trans (congrArg (fun u => some u.content) hclone).symm

/-- **Identity decides comparisons of unknown lanes.**  A comparison of two operands that both look
unconstrained when its turn comes is decided if these are one node: it holds on all padding lanes if
the mode is reflexive, and on none otherwise.  Nothing is known if they are different nodes,
whatever these were computed from. -/
theorem padding_of_unconstrained_views (hw : w.Built) (h : engine.analyze w roots = .ok a)
    (hn : a.nodes[i]? = some n) (hstage : engine.Stage w roots a.nodes i before)
    {mode : CompareMode} (hop : (w.node n).op = .compare mode)
    (hoperands : (w.node n).operands = [.node x, .node y]) {p q : PaddingValue}
    (hviews : (RunM.viewPair w n .compare).Yields before (some p, some q) after)
    (hp : p.content = .unconstrained) (hq : q.content = .unconstrained) :
    ∃ v, a.padding? n = some v ∧ v.origin = some n ∧
      (x = y → mode ∈ [.ge, .le, .eq] → v.content = .exact ⟨.bool, .one⟩) ∧
      (x = y → mode ∈ [.gt, .lt, .ne] → v.content = .exact ⟨.bool, .zero⟩) ∧
      (x ≠ y → v.content = .unconstrained) := by
  have hwf := hw.wellFormed
  obtain ⟨hknows, hsettled, v, hv, horigin, hinfer⟩ :=
    hstage.exists_padding hwf h hn (by rw [hop]; rfl)
  obtain ⟨-, hleft, hright⟩ := RunM.viewPair_spec hknows hoperands hviews
  have hleft : before.sees w n (.node x) = some p.clone := hleft.symm
  have hright : before.sees w n (.node y) = some q.clone := hright.symm
  have hx : x ∈ (w.node n).inputs := by simp [Node.inputs, hoperands, Operand.node?]
  have hy : y ∈ (w.node n).inputs := by simp [Node.inputs, hoperands, Operand.node?]
  have hxorigin := (hsettled x hx).origin_of_sees hleft hp
  have hyorigin := (hsettled y hy).origin_of_sees hright hq
  have hcontent : v.content =
      (if p.clone.sameValue q.clone then PaddingValue.exact (.ofBool mode.isReflexive)
        else .unconstrained).content := by
    simp only [Run.infer, hop, Run.compared, Run.seesAt, hoperands, List.getElem?_cons_zero,
      List.getElem?_cons_succ, Option.bind_some, hleft, hright, Option.map_eq_some_iff] at hinfer
    obtain ⟨u, hu, hcontent⟩ := hinfer
    rw [← hcontent,
      Platform.comparePadding_unconstrained (p := p.clone) (q := q.clone) hp hq
        (eq_ok_of_toOption hu)]
  have hsame := PaddingValue.sameValue_unconstrained (p := p.clone) (q := q.clone) hp hq
  have hself : x = y → v.content = .exact (.ofBool mode.isReflexive) := by
    rintro rfl
    have hhas : w.Has n := ((outcome_of_analyze hwf h).1.has n (List.mem_of_getElem? hn)).2
    have haxes := hw.axes_compare_self hhas hop hoperands
    have hinto : (w.node n).axesIntoPadding (w.node x) = [] :=
      List.filterMap_eq_nil_iff.2 fun b hb => by simp [Node.isBroadcast_of_axes_eq haxes hb]
    rw [hinto] at hxorigin hyorigin
    rw [hcontent, if_pos (hsame.2 ⟨x, hxorigin, hyorigin⟩)]
    rfl
  refine ⟨v, hv, horigin, fun hxy hmode => ?_, fun hxy hmode => ?_, fun hne => ?_⟩
  · rw [hself hxy]
    simp only [List.mem_cons, List.not_mem_nil, or_false] at hmode
    rcases hmode with rfl | rfl | rfl <;>
      simp only [CompareMode.isReflexive, Scalar.ofBool, if_true]
  · rw [hself hxy]
    simp only [List.mem_cons, List.not_mem_nil, or_false] at hmode
    rcases hmode with rfl | rfl | rfl <;>
      simp only [CompareMode.isReflexive, Scalar.ofBool, Bool.false_eq_true, if_false]
  · rw [hcontent, if_neg]
    · rfl
    · rw [hsame]
      rintro ⟨z, hz, hz'⟩
      -- an origin that is known is the operand itself
      have hxz := (Option.ite_none_right_eq_some.1 (hxorigin.symm.trans hz)).2
      have hyz := (Option.ite_none_right_eq_some.1 (hyorigin.symm.trans hz')).2
      exact hne (Option.some.inj (hxz.trans hyz.symm))

end Engine

/-- A vector, a copy of it that is made by replicating nothing, and comparisons of the vector with
itself and with the copy. -/
def Workspace.lookalikes : Workspace :=
  (Workspace.empty.addGraph "lookalikes").calls
    [.placeholder 0 "x" .float32 [⟨16, 15⟩], .broadcast ⟨0, 0⟩ [⟨16, 15⟩],
      .compare (.node ⟨0, 0⟩) (.node ⟨0, 0⟩) .ge, .compare (.node ⟨0, 0⟩) (.node ⟨0, 1⟩) .ge]

/-- Inputs may hold anything in their padding lanes. -/
def Engine.unknownInputs : Engine := { (default : Engine) with inputPadding := some .unconstrained }

/-- The vector is at least itself, but not known to be at least its copy. -/
theorem Engine.padding_lookalikes :
    Workspace.lookalikes.Built ∧ ∃ a, unknownInputs.analyze .lookalikes [⟨0, 2⟩, ⟨0, 3⟩] = .ok a ∧
      (∃ v, a.padding? ⟨0, 2⟩ = some v ∧ v.content = .exact ⟨.bool, .one⟩) ∧
      ∃ v, a.padding? ⟨0, 3⟩ = some v ∧ v.content = .unconstrained := by
  have hbuilt : Workspace.lookalikes.Built :=
    (Workspace.Built.addGraph "lookalikes" .empty).calls (by decide)
  have hreach : Workspace.lookalikes.reachable [⟨0, 2⟩, ⟨0, 3⟩] =
      .ok [⟨0, 0⟩, ⟨0, 1⟩, ⟨0, 2⟩, ⟨0, 3⟩] :=
    hbuilt.reachable_eq 0 (by decide)
  obtain ⟨a, ha, hnodes⟩ : ∃ a, unknownInputs.analyze .lookalikes [⟨0, 2⟩, ⟨0, 3⟩] = .ok a ∧
      a.nodes = [⟨0, 0⟩, ⟨0, 1⟩, ⟨0, 2⟩, ⟨0, 3⟩] :=
    hbuilt.exists_analyze 0 [⟨0, 0⟩, ⟨0, 1⟩, ⟨0, 2⟩, ⟨0, 3⟩] (by decide) (by decide +kernel)
  -- what the two comparisons see when their turns come
  obtain ⟨s, hs, hsees⟩ : ∃ s, unknownInputs.simulateFrom .lookalikes 4 0 [⟨0, 0⟩, ⟨0, 1⟩]
      (.initial .lookalikes 0 [⟨0, 0⟩, ⟨0, 1⟩, ⟨0, 2⟩, ⟨0, 3⟩]
        (distinct [⟨0, 2⟩, ⟨0, 3⟩])) = .ok s ∧
      ((RunM.viewPair .lookalikes ⟨0, 2⟩ .compare).on s).1.toOption =
        some (some ⟨.unconstrained, some ⟨0, 0⟩, []⟩, some ⟨.unconstrained, some ⟨0, 0⟩, []⟩) :=
    exists_ok_of_test (by decide)
  obtain ⟨t, ht, hsees'⟩ : ∃ t, unknownInputs.simulateFrom .lookalikes 4 0 [⟨0, 0⟩, ⟨0, 1⟩, ⟨0, 2⟩]
      (.initial .lookalikes 0 [⟨0, 0⟩, ⟨0, 1⟩, ⟨0, 2⟩, ⟨0, 3⟩]
        (distinct [⟨0, 2⟩, ⟨0, 3⟩])) = .ok t ∧
      ((RunM.viewPair .lookalikes ⟨0, 3⟩ .compare).on t).1.toOption =
        some (some ⟨.unconstrained, some ⟨0, 0⟩, []⟩, some ⟨.unconstrained, some ⟨0, 1⟩, []⟩) :=
    exists_ok_of_test (by decide)
  have hstage : unknownInputs.Stage .lookalikes [⟨0, 2⟩, ⟨0, 3⟩] a.nodes 2 s :=
    hnodes ▸ @Stage.simulated _ _ _ ⟨0, 2⟩ [⟨0, 3⟩] [⟨0, 0⟩, ⟨0, 1⟩]
      [⟨0, 2⟩, ⟨0, 3⟩] _ rfl hreach hs
  have hstage' : unknownInputs.Stage .lookalikes [⟨0, 2⟩, ⟨0, 3⟩] a.nodes 3 t :=
    hnodes ▸ @Stage.simulated _ _ _ ⟨0, 2⟩ [⟨0, 3⟩] [⟨0, 0⟩, ⟨0, 1⟩, ⟨0, 2⟩]
      [⟨0, 3⟩] _ rfl hreach ht
  have hviews := eq_ok_of_toOption hsees
  have hviews' := eq_ok_of_toOption hsees'
  have hop : (Workspace.lookalikes.node ⟨0, 2⟩).op = .compare .ge := by decide
  have hop' : (Workspace.lookalikes.node ⟨0, 3⟩).op = .compare .ge := by decide
  have hoperands : (Workspace.lookalikes.node ⟨0, 2⟩).operands = [.node ⟨0, 0⟩, .node ⟨0, 0⟩] := by
    decide
  have hoperands' : (Workspace.lookalikes.node ⟨0, 3⟩).operands = [.node ⟨0, 0⟩, .node ⟨0, 1⟩] := by
    decide
  obtain ⟨v, hv, -, hreflexive, -, -⟩ :=
    padding_of_unconstrained_views hbuilt ha (by rw [hnodes]; rfl) hstage hop
    hoperands (Prod.ext hviews rfl) rfl rfl
  obtain ⟨v', hv', -, -, -, hdistinct⟩ :=
    padding_of_unconstrained_views hbuilt ha (by rw [hnodes]; rfl) hstage' hop'
    hoperands' (Prod.ext hviews' rfl) rfl rfl
  exact ⟨hbuilt, a, ha, ⟨v, hv, hreflexive rfl (by decide)⟩, v', hv', hdistinct (by decide)⟩

end LanePadding
