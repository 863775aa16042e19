import LanePadding.Proofs.Extensions

/-!
# Comparing and selecting in one operator

A selection by a comparison can be one node, or a comparison and a selection that reads it.  If all
node operands have the same axes, the two are analysed alike.  The comparison looks at its operands
without demanding anything of them, and what it finds is all that the selection needs to know:
`RunM.selectPadding` depends on the content of the condition only.

## What is here

* `Workspace.SelectionOperands` — the operands of a selection by a comparison, of the same axes.
* `Pairing.Compares.leads_selection` — where the added nodes are simulated, the analyses agree.
* `Engine.analyze_cmpSel_iff_select` — a selection by a comparison is analysed like the two
  operators.
-/

set_option autoImplicit false

namespace LanePadding

/-! ## Graphs -/

namespace Node

def comparison (mode : CompareMode) (l r : Operand) (axes : List Axis) : Node :=
  ⟨"", .compare mode, [l, r], .bool, axes⟩

def selection (cond : NodeRef) (t f : Operand) (d : DType) (axes : List Axis) : Node :=
  ⟨"", .select, [.node cond, t, f], d, axes⟩

/-- The comparison and the selection in one node. -/
def fusedSelection (mode : CompareMode) (l r t f : Operand) (d : DType) (axes : List Axis) : Node :=
  ⟨"", .cmpSel mode, [l, r, t, f], d, axes⟩

end Node

/-- The operands `l` and `r` of a comparison and the branches `t` and `f` that it decides between.
All nodes among them have the same axes, and one of them is compared. -/
structure Workspace.SelectionOperands (w : Workspace) (g : Nat) (axes : List Axis)
    (l r t f : Operand) : Prop where
  compared : w.operandDType l = w.operandDType r
  branches : w.operandDType t = w.operandDType f
  nodes : ∀ x, .node x ∈ [l, r, t, f] → x.graph = g ∧ w.Has x ∧ (w.node x).axes = axes
  some_node : ∃ x, .node x ∈ [l, r]

namespace Workspace.SelectionOperands

variable {w : Workspace} {g : Nat} {axes : List Axis} {l r t f : Operand} {mode : CompareMode}
  (h : w.SelectionOperands g axes l r t f)

include h

theorem lt_size : g < w.graphs.size := by
  obtain ⟨x, hx⟩ := h.some_node
  obtain ⟨rfl, hhas, -⟩ := h.nodes x (List.mem_append_left [t, f] hx)
  exact lt_size_of_has hhas

theorem valid (hw : w.WellFormed) : ∀ a ∈ axes, a.Valid := by
  obtain ⟨x, hx⟩ := h.some_node
  obtain ⟨-, hhas, rfl⟩ := h.nodes x (List.mem_append_left [t, f] hx)
  exact (hw x hhas).valid

theorem ne_nil (rest : List Operand) : (l :: r :: rest).filterMap Operand.node? ≠ [] := by
  obtain ⟨x, hx⟩ := h.some_node
  exact List.ne_nil_of_mem (Operand.mem_filterMap_node?.2 (List.mem_append_left rest hx))

theorem cmpSel_on (hw : w.WellFormed) (hmode : mode.isKnown = true) :
    (Build.cmpSel l r mode t f).on w = (.ok (w.nextRef g),
      w.push g (.fusedSelection mode l r t f (w.operandDType t) axes)) := by
  have hshape : w.broadcastShape .cmpSel [l, r, t, f] = .ok axes :=
    broadcastShape_of_axes_eq (h.ne_nil _) fun x hx =>
      (h.nodes x (Operand.mem_filterMap_node?.1 hx)).2.2
  apply Build.on_eq_of_ends
  simp only [Build.cmpSel, Build.ends_bind, Build.ends_get, Build.ends_lift,
    commonDType_of_eq h.compared, commonDType_of_eq h.branches, hmode, hshape, Bool.not_true,
    Bool.false_eq_true, if_false]
  exact Build.ends_add_push (h.ne_nil _)
    (fun x hx => (h.nodes x (Operand.mem_filterMap_node?.1 hx)).1) (h.valid hw)

theorem compare_on (hw : w.WellFormed) (hmode : mode.isKnown = true) :
    (Build.compare l r mode).on w = (.ok (w.nextRef g),
      w.push g (.comparison mode l r axes)) := by
  have hnodes : ∀ x ∈ [l, r].filterMap Operand.node?, x.graph = g ∧ w.Has x ∧
      (w.node x).axes = axes :=
    fun x hx => h.nodes x (List.mem_append_left [t, f] (Operand.mem_filterMap_node?.1 hx))
  have hshape : w.broadcastShape .compare [l, r] = .ok axes :=
    broadcastShape_of_axes_eq (h.ne_nil _) fun x hx => (hnodes x hx).2.2
  apply Build.on_eq_of_ends
  simp only [Build.compare, Build.ends_bind, Build.ends_get, Build.ends_lift,
    commonDType_of_eq h.compared, hmode, hshape, Bool.not_true, Bool.false_eq_true, if_false]
  exact Build.ends_add_push (h.ne_nil _) (fun x hx => (hnodes x hx).1) (h.valid hw)

theorem select_on (hw : w.WellFormed) :
    (Build.select (w.nextRef g) t f).on (w.push g (.comparison mode l r axes)) =
      (.ok ((w.push g (.comparison mode l r axes)).nextRef g),
        (w.push g (.comparison mode l r axes)).push g
          (.selection (w.nextRef g) t f (w.operandDType t) axes)) := by
  have hbranch : ∀ x, .node x ∈ [t, f] → x.graph = g ∧ w.Has x ∧ (w.node x).axes = axes :=
    fun x hx => h.nodes x (List.mem_append_right [l, r] hx)
  have hcondition := node_push_self (n := .comparison mode l r axes) h.lt_size
  have hbool : ((w.push g (.comparison mode l r axes)).node (w.nextRef g)).dtype = .bool := by
    rw [hcondition]
    rfl
  have hdtype : ∀ a ∈ [t, f], (w.push g (.comparison mode l r axes)).operandDType a =
      w.operandDType a :=
    fun a ha => operandDType_push fun x hx => (hbranch x (hx ▸ ha)).2.1
  have ht := hdtype t (by simp)
  have hdtypes := ht.trans (h.branches.trans (hdtype f (by simp)).symm)
  have hne : [.node (w.nextRef g), t, f].filterMap Operand.node? ≠ [] :=
    List.ne_nil_of_mem (Operand.mem_filterMap_node?.2 List.mem_cons_self)
  have hnodes : ∀ x ∈ [.node (w.nextRef g), t, f].filterMap Operand.node?, x.graph = g ∧
      ((w.push g (.comparison mode l r axes)).node x).axes = axes := by
    intro x hx
    rcases List.mem_cons.1 (Operand.mem_filterMap_node?.1 hx) with hx | hx
    · cases hx
      exact ⟨rfl, by rw [hcondition]; rfl⟩
    · obtain ⟨hgraph, hhas, haxes⟩ := hbranch x hx
      exact ⟨hgraph, by rw [node_push hhas, haxes]⟩
  have hshape : (w.push g (.comparison mode l r axes)).broadcastShape .select
      [.node (w.nextRef g), t, f] = .ok axes :=
    broadcastShape_of_axes_eq hne fun x hx => (hnodes x hx).2
  apply Build.on_eq_of_ends
  simp only [Build.select, Build.ends_bind, Build.ends_get, Build.ends_lift, hbool,
    commonDType_of_eq hdtypes, hshape, ne_eq, not_true_eq_false, if_false, ht]
  exact Build.ends_add_push hne (fun x hx => (hnodes x hx).1) (h.valid hw)

end Workspace.SelectionOperands

/-! ## Simulating the added nodes -/

namespace RunM

variable {w : Workspace} {engine : Engine} {n : NodeRef} {axes : List Axis} {l r t f : Operand}
  {mode : CompareMode} {d : DType} {before after : Run} {p : PaddingValue}

theorem yields_simulate_comparison (hnode : w.node n = .comparison mode l r axes)
    (hdtype : w.operandDType l = w.operandDType r)
    (haxes : ∀ x, .node x ∈ [l, r] → (w.node x).axes = axes) :
    (simulate w engine n).Yields before p after ↔
      before.Compared engine.platform mode n l r p ∧ after = before := by
  simp only [simulate, hnode, Node.comparison]
  exact yields_simulateCompare_of_axes_eq (by rw [hnode]; rfl) hdtype
    fun x hx => by rw [hnode]; exact haxes x hx

theorem yields_simulate_fusedSelection (hnode : w.node n = .fusedSelection mode l r t f d axes)
    (hdtype : w.operandDType l = w.operandDType r)
    (haxes : ∀ x, .node x ∈ [l, r] → (w.node x).axes = axes) :
    (simulate w engine n).Yields before p after ↔
      ∃ cond, before.Compared engine.platform mode n l r cond ∧
      (selectPadding w n cond t f).Yields before (some p) after := by
  have hcompare : ∀ {cond s}, (simulateCompare w engine n .cmpSel mode).Yields before cond s ↔ _ :=
    yields_simulateCompare_of_axes_eq (by rw [hnode]; rfl) hdtype
      fun x hx => by rw [hnode]; exact haxes x hx
  simp only [simulate, hnode, Node.fusedSelection, yields_bind, hcompare,
    yields_operand, yields_need, List.getElem?_cons_zero, List.getElem?_cons_succ,
    Option.some.injEq]
  constructor
  · rintro ⟨cond, _, ⟨hcond, rfl⟩, _, _, ⟨rfl, rfl⟩, _, _, ⟨rfl, rfl⟩, _, _, hselect, rfl, rfl⟩
    exact ⟨cond, hcond, hselect⟩
  · rintro ⟨cond, hcond, hselect⟩
    exact ⟨cond, _, ⟨hcond, rfl⟩, _, _, ⟨rfl, rfl⟩, _, _, ⟨rfl, rfl⟩, _, _, hselect, rfl, rfl⟩

theorem yields_simulate_selection {c : NodeRef} (hnode : w.node n = .selection c t f d axes)
    (haxes : (w.node c).axes = axes) :
    (simulate w engine n).Yields before p after ↔ ∃ cond, before.read c (some n) = some cond ∧
      (selectPadding w n cond t f).Yields before (some p) after := by
  have hview : ∀ {o s}, (view w n (.node c)).Yields before o s ↔
      o = before.read c (some n) ∧ s = before :=
    yields_view_of_axes_eq fun x hx => by
      obtain rfl := Operand.node.inj hx
      rw [hnode]
      exact haxes
  simp only [simulate, hnode, Node.selection, yields_bind, yields_operand, yields_need,
    List.getElem?_cons_zero, List.getElem?_cons_succ, Option.some.injEq]
  constructor
  · rintro ⟨_, _, ⟨rfl, rfl⟩, _, _, hseen, cond, _, ⟨rfl, rfl⟩, _, _, ⟨rfl, rfl⟩, _, _, ⟨rfl, rfl⟩,
      _, _, hselect, rfl,
      rfl⟩
    obtain ⟨hcond, rfl⟩ := hview.1 hseen
    exact ⟨cond, hcond.symm, hselect⟩
  · rintro ⟨cond, hcond, hselect⟩
    exact ⟨_, _, ⟨rfl, rfl⟩, _, _, hview.2 ⟨hcond.symm, rfl⟩, cond, _, ⟨rfl, rfl⟩, _, _,
      ⟨rfl, rfl⟩, _, _, ⟨rfl, rfl⟩, _, _, hselect, rfl, rfl⟩

end RunM

namespace Pairing.Compares

variable {P : Pairing} {w : Workspace} {g : Nat} {roots ops : List NodeRef} {n c s : NodeRef}
  {axes : List Axis} {l r t f : Operand} {mode : CompareMode} {d : DType} {engine : Engine}

section

variable (h : P.Compares w roots ops n [c, s] s)
  (hfused : P.left.node n = .fusedSelection mode l r t f d axes)
    (hselection : P.right.node s = .selection c t f d axes) (hrename : P.rename n = s)
  (hcompared : P.left.operandDType l = P.left.operandDType r)
  (hnodes : ∀ x, .node x ∈ [l, r, t, f] → x ∈ P.nodes ∧ (P.left.node x).axes = axes)

include h hfused hselection hrename hcompared hnodes

/-- Once the condition is known, the two selections do the same. -/
theorem simulate_selection {before before' : Run}
    (hawaits : P.Awaits roots n [c, s] s [s] before before') (hcaxes : (P.right.node c).axes = axes)
    {cond cond' : PaddingValue} (hcond : before.Compared engine.platform mode n l r cond)
    (hread : before'.read c (some s) = some cond') (hcontent : cond'.content = cond.content) :
    (∃ p after p' after', (RunM.simulate P.left engine n).Yields before p after ∧
        (RunM.simulate P.right engine s).Yields before' p' after' ∧ p'.content = p.content ∧
        P.Awaits roots n [c, s] s [s] after after') ∨
      (RunM.simulate P.left engine n).Fails before ∧
      (RunM.simulate P.right engine s).Fails before' := by
  have hleft : ∀ {p after}, (RunM.simulate P.left engine n).Yields before p after ↔
      (RunM.selectPadding P.left n cond t f).Yields before (some p) after := by
    intro p after
    rw [RunM.yields_simulate_fusedSelection hfused hcompared fun x hx =>
      (hnodes x (List.mem_append_left [t, f] hx)).2]
    constructor
    · rintro ⟨cond₀, hcond₀, hselect⟩
      rwa [hcond.unique hcond₀]
    · exact fun hselect => ⟨cond, hcond, hselect⟩
  have hright : ∀ {p after}, (RunM.simulate P.right engine s).Yields before' p after ↔
      (RunM.selectPadding P.right s cond' t f).Yields before' (some p) after := by
    intro p after
    rw [RunM.yields_simulate_selection hselection hcaxes, hread]
    simp only [Option.some.injEq, exists_eq_left']
  have haxes : (P.right.node (P.rename n)).axes = (P.left.node n).axes := by
    rw [hrename, hselection, hfused]
    rfl
  -- all operands have the axes of their consumer, so that no lanes are to be fixed
  have hviewable : ∀ a ∈ [t, f], P.Viewable n a := by
    rintro a ha x rfl
    obtain ⟨hx, hsame⟩ := hnodes x (List.mem_append_right [l, r] ha)
    refine ⟨hx, .inr (Workspace.laneFix_of_axes_eq ?_)⟩
    rw [hsame, hfused]
    rfl
  have hselect : RunM.Lockstep (P.Follows (before, before')) _ _ _ :=
    P.lockstep_selectPadding haxes hcontent (hviewable t (by simp)) (hviewable f (by simp))
  rw [hrename] at hselect
  rcases hselect before before' hawaits.follows with
    ⟨o, after, o', after', ho, ho', rfl, hafter⟩ | ⟨hfail, hfail'⟩
  · cases o with
    | none =>
      refine .inr ⟨fun p u hp => ?_, fun p u hp => ?_⟩
      · exact Option.some_ne_none p (ho.unique (hleft.1 hp)).1
      · exact Option.some_ne_none p (ho'.unique (hright.1 hp)).1
    | some p =>
      exact .inl ⟨p, after, _, after', hleft.2 ho, hright.2 ho', rfl, h.awaits_of_follows hawaits
        (by simp) hafter⟩
  · exact .inr ⟨fun p u hp => hfail _ _ (hleft.1 hp), fun p u hp => hfail' _ _ (hright.1 hp)⟩

/-- **Where the added nodes are simulated, the analyses agree.** -/
theorem leads_selection (hcs : c.index ≠ s.index)
    (hcomparison : P.right.node c = .comparison mode l r axes) :
    RunM.Leads (P.Prepared engine roots n [c, s] s) (P.Ends n s) (engine.step P.left n)
      ([c, s].forM (engine.step P.right)) := by
  intro before before' hprepared
  have hawaits := h.awaits_of_prepared hprepared
  have hcommon : ∀ a ∈ [l, r, t, f], ∀ x, a = .node x → x ∈ P.nodes :=
    fun a ha x hx => (hnodes x (hx ▸ ha)).1
  have hcompared' : P.right.operandDType l = P.right.operandDType r := by
    rwa [P.operandDType_eq_of_mem (hcommon l (by simp)), P.operandDType_eq_of_mem
      (hcommon r (by simp))]
  have hsame : ∀ x, .node x ∈ [l, r] → (P.left.node x).axes = axes ∧
      (P.right.node x).axes = axes := by
    intro x hx
    obtain ⟨hmem, haxes⟩ := hnodes x (List.mem_append_left [t, f] hx)
    exact ⟨haxes, by rw [P.node_eq x hmem, haxes]⟩
  have hcompare : ∀ {p after}, (RunM.simulate P.right engine c).Yields before' p after ↔
      before.Compared engine.platform mode n l r p ∧ after = before' := by
    intro p after
    rw [RunM.yields_simulate_comparison hcomparison hcompared' fun x hx => (hsame x hx).2,
      h.compared_iff hprepared (by simp) (hcommon l (by simp)) (hcommon r (by simp))]
  by_cases hfound : ∃ cond, before.Compared engine.platform mode n l r cond
  · obtain ⟨cond, hcond⟩ := hfound
    have hfits : cond.content.Fits (P.right.node c).dtype := by
      obtain ⟨pl, pr, -, -, hcond⟩ := hcond
      rw [hcomparison]
      exact Platform.fits_comparePadding hcond
    have hstep : (engine.step P.right c).Yields before' () (before'.store c cond.content) :=
      h.yields_step_right hawaits (by simp) (by simp) (hcompare.2 ⟨hcond, rfl⟩) hfits
    have hstored := h.awaits_store hawaits (by simp) (by simpa using hcs) cond.content
    have hread := h.read_store hawaits List.mem_cons_self List.mem_cons_self cond.content (some s)
    have hsimulate := simulate_selection h hfused hselection hrename hcompared hnodes hstored
      (by rw [hcomparison]; rfl) hcond hread rfl
    exact h.leads_pair hstep hsimulate
  · refine .inr (fails_pair (fun p u hp => ?_) fun p u hp => hfound ⟨p, (hcompare.1 hp).1⟩)
    rw [RunM.yields_simulate_fusedSelection hfused hcompared fun x hx => (hsame x hx).1] at hp
    obtain ⟨cond, hcond, -⟩ := hp
    exact hfound ⟨cond, hcond⟩

end

end Pairing.Compares

/-! ## Analyses -/

namespace Workspace.SelectionOperands

variable {w : Workspace} {g : Nat} {axes : List Axis} {l r t f : Operand} {mode : CompareMode}
  {roots : List NodeRef} (h : w.SelectionOperands g axes l r t f)

include h

theorem mem_operands {x : NodeRef} (hx : x ∈ [l, r, t, f].filterMap Operand.node?) :
    x.graph = g ∧ w.Has x ∧ (w.node x).axes = axes :=
  h.nodes x (Operand.mem_filterMap_node?.1 hx)

theorem wellFormed_cmpSel (hw : w.Built) (hmode : mode.isKnown = true) :
    (w.push g (.fusedSelection mode l r t f (w.operandDType t) axes)).WellFormed := by
  have hbuilt := hw.call (.cmpSel l r mode t f) fun x hx => (h.mem_operands hx).2.1
  rw [BuilderCall.build, h.cmpSel_on hw.wellFormed hmode] at hbuilt
  exact hbuilt.wellFormed

theorem wellFormed_select (hw : w.Built) (hmode : mode.isKnown = true) :
    ((w.push g (.comparison mode l r axes)).push g
      (.selection (w.nextRef g) t f (w.operandDType t) axes)).WellFormed := by
  have hcompare := hw.call (.compare l r mode) fun x hx =>
    (h.nodes x (List.mem_append_left [t, f] (Operand.mem_filterMap_node?.1 hx))).2.1
  rw [BuilderCall.build, h.compare_on hw.wellFormed hmode] at hcompare
  have hmentions : ∀ x ∈ (BuilderCall.select (w.nextRef g) t f).mentions,
      (w.push g (.comparison mode l r axes)).Has x := by
    intro x hx
    rw [BuilderCall.mentions, Operand.mem_filterMap_node?] at hx
    rcases List.mem_cons.1 hx with hx | hx
    · exact Operand.node.inj hx ▸ has_nextRef h.lt_size
    · exact has_push_of_has (h.nodes x (List.mem_append_right [l, r] hx)).2.1
  have hselect := hcompare.call (.select (w.nextRef g) t f) hmentions
  rw [BuilderCall.build, h.select_on hw.wellFormed] at hselect
  exact hselect.wellFormed

theorem adds_cmpSel (d : DType) :
    w.Adds g ([l, r, t, f].filterMap Operand.node?)
      (w.push g (.fusedSelection mode l r t f d axes)) [w.nextRef g] (w.nextRef g) := by
  have hinputs : ∀ x ∈ (Node.fusedSelection mode l r t f d axes).inputs, x.graph = g ∧ w.Has x :=
    fun x hx => ⟨(h.mem_operands hx).1, (h.mem_operands hx).2.1⟩
  exact adds_push h.lt_size hinputs

theorem adds_select (d : DType) :
    w.Adds g ([l, r, t, f].filterMap Operand.node?)
      ((w.push g (.comparison mode l r axes)).push g (.selection (w.nextRef g) t f d axes))
      [w.nextRef g, (w.push g (.comparison mode l r axes)).nextRef g]
      ((w.push g (.comparison mode l r axes)).nextRef g) := by
  refine adds_push_push h.lt_size (fun x hx => ?_) (fun x hx => ?_) (fun x hx => ?_) ?_
  · obtain ⟨hgraph, hhas, -⟩ := h.mem_operands hx
    refine ⟨hgraph, hhas, ?_⟩
    rcases List.mem_append.1
      (show .node x ∈ [l, r] ++ [t, f] from Operand.mem_filterMap_node?.1 hx) with hx | hx
    · exact .inl (Operand.mem_filterMap_node?.2 hx)
    · exact .inr (Operand.mem_filterMap_node?.2 (List.mem_cons_of_mem _ hx))
  · exact Operand.mem_filterMap_node?.2
      (List.mem_append_left [t, f] (Operand.mem_filterMap_node?.1 hx))
  · rcases List.mem_cons.1 (Operand.mem_filterMap_node?.1 hx) with hx | hx
    · exact .inl (Operand.node.inj hx)
    · exact .inr (Operand.mem_filterMap_node?.2 (List.mem_append_right [l, r] hx))
  · exact Operand.mem_filterMap_node?.2 List.mem_cons_self

/-- **The two extensions are paired.** -/
theorem exists_compares (hw : w.Built) (hmode : mode.isKnown = true)
    (hroots : ∀ x ∈ roots, x.graph = g ∧ w.Has x) :
    ∃ P : Pairing, P.left = w.push g (.fusedSelection mode l r t f (w.operandDType t) axes) ∧
      P.right = (w.push g (.comparison mode l r axes)).push g
        (.selection (w.nextRef g) t f (w.operandDType t) axes) ∧
      P.rename = Equiv.swap (w.nextRef g) ((w.push g (.comparison mode l r axes)).nextRef g) ∧
      P.Compares w roots ([l, r, t, f].filterMap Operand.node?) (w.nextRef g)
        [w.nextRef g, (w.push g (.comparison mode l r axes)).nextRef g]
        ((w.push g (.comparison mode l r axes)).nextRef g) := by
  have hleft : w.Adds g _ (w.push g (.fusedSelection mode l r t f (w.operandDType t) axes)) _ _ :=
    h.adds_cmpSel _
  have hright : w.Adds g _ ((w.push g (.comparison mode l r axes)).push g _) _ _ :=
    h.adds_select (w.operandDType t)
  obtain ⟨nodes, hnodes⟩ : ∃ nodes, w.PartOf g
      (roots ++ [l, r, t, f].filterMap Operand.node?) nodes := by
    refine exists_partOf hw.wellFormed fun x hx => ?_
    rcases List.mem_append.1 hx with hx | hx
    · exact hroots x hx
    · exact ⟨(h.mem_operands hx).1, (h.mem_operands hx).2.1⟩
  have hfixed : ∀ x, w.Has x →
      Equiv.swap (w.nextRef g) ((w.push g (.comparison mode l r axes)).nextRef g) x = x := by
    refine fun x hx => Equiv.swap_apply_of_ne_of_ne (fun heq => ?_) fun heq => ?_
    · exact not_has_nextRef (heq ▸ hx)
    · exact not_has_nextRef (heq ▸ has_push_of_has hx)
  have hfused : (w.push g (.fusedSelection mode l r t f (w.operandDType t) axes)).node
      (w.nextRef g) = _ :=
    node_push_self h.lt_size
  obtain ⟨hcomparison, hselection⟩ : ((w.push g (.comparison mode l r axes)).push g
      (.selection (w.nextRef g) t f (w.operandDType t) axes)).node (w.nextRef g) = _ ∧ _ :=
    node_push_push_self h.lt_size
  refine ⟨.ofAdds hleft hright hnodes _ (Equiv.injective _) hfixed
    (fun x => (∃ c ∈ nodes, x ∈ (w.node c).inputs) ∨ x ∈ roots) fun c hc x hx => .inl ⟨c, hc, hx⟩,
    rfl, rfl, rfl, ?_⟩
  refine Pairing.compares_ofAdds hw.wellFormed (h.wellFormed_cmpSel hw hmode)
    (h.wellFormed_select hw hmode)
    (fun x hx => ⟨(hroots x hx).1, (hroots x hx).2, .inr hx⟩) (fun x => ⟨?_, ?_⟩)
    (fun x _ hx => .inl hx) ?_ ?_
  · rw [hfused]
    rfl
  · intro c hc
    rcases List.mem_pair.1 hc with rfl | rfl
    · rw [hcomparison]
      rfl
    · rw [hselection]
      rfl
  · rw [hselection, hfused]
    rfl
  · rw [hselection, hfused]
    rfl

/-- The pairing of the two extensions follows the added nodes. -/
theorem leads_step {P : Pairing} (engine : Engine)
    (hleft : P.left = w.push g (.fusedSelection mode l r t f (w.operandDType t) axes))
    (hright : P.right = (w.push g (.comparison mode l r axes)).push g
      (.selection (w.nextRef g) t f (w.operandDType t) axes))
    (hrename : P.rename (w.nextRef g) = (w.push g (.comparison mode l r axes)).nextRef g)
    (hcompares : P.Compares w roots ([l, r, t, f].filterMap Operand.node?) (w.nextRef g)
      [w.nextRef g, (w.push g (.comparison mode l r axes)).nextRef g]
      ((w.push g (.comparison mode l r axes)).nextRef g)) :
    RunM.Leads (P.Prepared engine roots (w.nextRef g)
        [w.nextRef g, (w.push g (.comparison mode l r axes)).nextRef g]
        ((w.push g (.comparison mode l r axes)).nextRef g))
      (P.Ends (w.nextRef g) ((w.push g (.comparison mode l r axes)).nextRef g))
      (engine.step P.left (w.nextRef g))
      ([w.nextRef g, (w.push g (.comparison mode l r axes)).nextRef g].forM
        (engine.step P.right)) := by
  have hfused : P.left.node (w.nextRef g) =
      .fusedSelection mode l r t f (w.operandDType t) axes := by
    rw [hleft, node_push_self h.lt_size]
  obtain ⟨hcomparison, hselection⟩ : P.right.node (w.nextRef g) = .comparison mode l r axes ∧
      P.right.node ((w.push g (.comparison mode l r axes)).nextRef g) =
        .selection (w.nextRef g) t f (w.operandDType t) axes := by
    rw [hright]
    exact node_push_push_self h.lt_size
  have hcompared : P.left.operandDType l = P.left.operandDType r := by
    rw [hleft, operandDType_push fun x hx => (h.nodes x (by simp [hx])).2.1,
      operandDType_push fun x hx => (h.nodes x (by simp [hx])).2.1, h.compared]
  have hnodes : ∀ x, .node x ∈ [l, r, t, f] → x ∈ P.nodes ∧ (P.left.node x).axes = axes := by
    intro x hx
    obtain ⟨-, hhas, haxes⟩ := h.nodes x hx
    refine ⟨(hcompares.nodes.mem_iff x).2
      (.root (List.mem_append_right _ (Operand.mem_filterMap_node?.2 hx))), ?_⟩
    rw [(hcompares.left.kept x hhas).2, haxes]
  exact hcompares.leads_selection hfused hselection hrename hcompared hnodes
    (index_nextRef_ne h.lt_size) hcomparison

end Workspace.SelectionOperands

/-- A vector and its logarithm, which may fault on padding lanes. -/
def Workspace.logarithm : Workspace :=
  (Workspace.empty.addGraph "logarithm").calls
    [.placeholder 0 "x" .float32 [⟨16, 15⟩], .unary (.unary .log) ⟨0, 0⟩]

theorem Workspace.built_logarithm : logarithm.Built :=
  (Built.addGraph "logarithm" .empty).calls (by decide)

/-- The vector where it is positive and zero elsewhere, in one operator. -/
def Workspace.positivePart : Workspace :=
  logarithm.calls
    [.cmpSel (.node ⟨0, 0⟩) (.scalar ⟨.float32, .zero⟩) .gt (.node ⟨0, 0⟩)
      (.scalar ⟨.float32, .zero⟩)]

namespace Engine

variable {engine : Engine} {w : Workspace} {g : Nat} {roots : List NodeRef} {axes : List Axis}
  {l r t f : Operand} {mode : CompareMode}

/-- **A selection by a comparison is analysed like a comparison and a selection.**  Either both
graphs can be analysed or none of them.  The analyses find the same in all old nodes and in the new
outputs, and the actions are the same, with the selection in the place of the one operator. -/
theorem analyze_cmpSel_iff_select (hw : w.Built) (hroots : ∀ x ∈ roots, x.graph = g ∧ w.Has x)
    (hoperands : w.SelectionOperands g axes l r t f) (hmode : mode.isKnown = true) :
    ∃ n w₁ c w₂ s w₃, (Build.cmpSel l r mode t f).on w = (.ok n, w₁) ∧
      (Build.compare l r mode).on w = (.ok c, w₂) ∧ (Build.select c t f).on w₂ = (.ok s, w₃) ∧
      ((∃ a, engine.analyze w₁ (roots ++ [n]) = .ok a) ↔
        ∃ b, engine.analyze w₃ (roots ++ [s]) = .ok b) ∧
      ∀ a b, engine.analyze w₁ (roots ++ [n]) = .ok a → engine.analyze w₃ (roots ++ [s]) = .ok b →
        a.SameContents w n s b ∧
        b.actions = a.actions.map (Action.redirect (Function.update id n s)) := by
  obtain ⟨P, hleft, hright, hrename, hcompares⟩ := hoperands.exists_compares hw hmode hroots
  refine ⟨_, _, _, _, _, _, hoperands.cmpSel_on hw.wellFormed hmode,
    hoperands.compare_on hw.wellFormed hmode, hoperands.select_on hw.wellFormed, ?_⟩
  have hswap := hrename ▸ Equiv.swap_apply_left (w.nextRef g)
    ((w.push g (.comparison mode l r axes)).nextRef g)
  obtain ⟨hiff, hagree⟩ :=
    hcompares.analyze_iff (hoperands.leads_step engine hleft hright hswap hcompares)
  have hold : ∀ x ∈ P.nodes,
      Function.update id (w.nextRef g)
        ((w.push g (.comparison mode l r axes)).nextRef g) x = x := by
    intro x hx
    refine Function.update_of_ne (fun heq => ?_) ..
    exact Workspace.not_has_nextRef (heq ▸ hcompares.nodes.has x hx)
  rw [← hleft, ← hright]
  refine ⟨hiff, fun a b ha hb => ⟨hcompares.sameContents ha hb (hagree a b ha hb), ?_⟩⟩
  refine (hagree a b ha hb).actions_eq (fun v => ?_) fun e he hmem => ?_
  · rw [Action.redirect, Function.update_self, List.map_nil]
  · rw [Action.redirect, Action.retarget, hold _ hmem]
    refine congrArg (Action.mk _ _) (List.map_congr_left fun c hc => ?_)
    have hanalysed := (ended_of_analyze hcompares.wellFormed.2.1 ha).mem_of_mem_targets he hc
    rw [((hcompares.grows_left.whole.analyze_iff (by simp)).1 ha).2.1] at hanalysed
    rcases List.mem_append.1 hanalysed with hc | hc
    · rw [hold c hc, P.fixed c hc]
    · rw [List.mem_singleton.1 hc, hswap, Function.update_self]

/-- The vector where it is positive and zero elsewhere.  The logarithm needs ones in the padding
lanes of the vector, so the comparison is known to hold there. -/
theorem analyze_cmpSel_logarithm :
    Workspace.logarithm.SelectionOperands 0 [⟨16, 15⟩] (.node ⟨0, 0⟩) (.scalar ⟨.float32, .zero⟩)
      (.node ⟨0, 0⟩) (.scalar ⟨.float32, .zero⟩) ∧
    ∃ n w₁ c w₂ s w₃ a b,
      (Build.cmpSel (.node ⟨0, 0⟩) (.scalar ⟨.float32, .zero⟩) .gt (.node ⟨0, 0⟩)
        (.scalar ⟨.float32, .zero⟩)).on .logarithm = (.ok n, w₁) ∧
      (Build.compare (.node ⟨0, 0⟩) (.scalar ⟨.float32, .zero⟩) .gt).on .logarithm = (.ok c, w₂) ∧
      (Build.select c (.node ⟨0, 0⟩) (.scalar ⟨.float32, .zero⟩)).on w₂ = (.ok s, w₃) ∧
      default.analyze w₁ ([⟨0, 1⟩] ++ [n]) = .ok a ∧ default.analyze w₃ ([⟨0, 1⟩] ++ [s]) = .ok b ∧
      a.actions = [⟨⟨0, 0⟩, .constant ⟨.float32, .one⟩, []⟩, ⟨n, .constant ⟨.float32, .zero⟩, []⟩] ∧
      a.SameContents .logarithm n s b ∧
      b.actions = a.actions.map (Action.redirect (Function.update id n s)) := by
  have hoperands : Workspace.logarithm.SelectionOperands 0 [⟨16, 15⟩] (.node ⟨0, 0⟩)
      (.scalar ⟨.float32, .zero⟩) (.node ⟨0, 0⟩) (.scalar ⟨.float32, .zero⟩) :=
    ⟨by decide, by decide, fun x hx => by
      obtain rfl : x = ⟨0, 0⟩ := by simpa using hx
      decide, ⟨0, 0⟩, by simp⟩
  obtain ⟨n, w₁, c, w₂, s, w₃, hn, hc, hs, hiff, hall⟩ :=
    @analyze_cmpSel_iff_select default _ _ _ _ _ _ _ _ .gt
    Workspace.built_logarithm (show ∀ x ∈ [(⟨0, 1⟩ : NodeRef)], _ by decide) hoperands rfl
  obtain rfl : n = ⟨0, 2⟩ := Except.ok.inj (congrArg Prod.fst hn).symm
  obtain rfl : w₁ = .positivePart := (congrArg Prod.snd hn).symm
  obtain ⟨a, ha, hactions⟩ : ∃ a, default.analyze .positivePart ([⟨0, 1⟩] ++ [⟨0, 2⟩]) = .ok a ∧
      a.actions = [⟨⟨0, 0⟩, .constant ⟨.float32, .one⟩, []⟩,
        ⟨⟨0, 2⟩, .constant ⟨.float32, .zero⟩, []⟩] :=
    (Workspace.built_logarithm.calls (by decide)).exists_analyze 0
      [⟨0, 0⟩, ⟨0, 1⟩, ⟨0, 2⟩] (by decide) (by decide +kernel)
  obtain ⟨b, hb⟩ := hiff.1 ⟨a, ha⟩
  exact ⟨hoperands, _, _, c, w₂, s, w₃, a, b, hn, hc, hs, ha, hb, hactions, hall a b ha hb⟩

end Engine
end LanePadding
